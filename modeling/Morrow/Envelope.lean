import Morrow.ByteCodec
import Morrow.Machine
import Morrow.PartitionKeys

/-!
# Message envelopes and their batch format

An envelope is written as a magic line followed by its fields, each variable
field behind its own length. A batch puts the length and the CRC-32 of that body
in front. The reader also accepts the older body format without the magic line,
whose decoder is a parameter here, and refuses bodies over the batch limit; the
writer has no such limit of its own, so an envelope counts as storable only when
its body can be read back. Encryption is off throughout.
-/

namespace Morrow

open ByteCodec List

/-- An application header. -/
structure MessageHeader where
  name : String
  value : String
deriving DecidableEq

/-- A published record with everything its log stores about it. -/
structure MessageEnvelope where
  nameSpace : String
  stream : StreamId
  partition : PartitionId
  offset : ℕ
  subject : String
  key : Option Bytes
  headers : List MessageHeader
  timestampMs : ℕ
  replyTo : Option String
  schemaId : Option ℕ
  payload : Bytes
  partitioningEpoch : ℕ
  leaderEpoch : ℕ
  legacySeq : ℕ
deriving DecidableEq

namespace MessageEnvelope

variable (envelope : MessageEnvelope)

/-- The partition an envelope belongs to. -/
def ref : PartitionRef := ⟨envelope.stream.name, envelope.partition⟩

/-- The copy kept in memory: everything but the payload. -/
def intoResidentMetadata : MessageEnvelope :=
  { envelope with payload := [] }

@[simp] theorem intoResidentMetadata_offset :
    envelope.intoResidentMetadata.offset = envelope.offset := rfl

end MessageEnvelope

/-! ### Writing -/

/-- The line that starts a binary body. -/
def binaryBodyMagic : Bytes := utf8 "MORROW-PLOG-BIN1\n"

/-- A byte string behind its length; refused when the length field cannot hold it. -/
def putBytes (bytes : Bytes) : Except String Bytes :=
  if bytes.length ≤ u32Max then .ok (littleEndian 4 bytes.length ++ bytes)
  else .error "partition-log field is too large"

def putString (value : String) : Except String Bytes := putBytes (utf8 value)

def putOptionalBytes : Option Bytes → Except String Bytes
  | some value => do pure (1 :: (← putBytes value))
  | none => .ok [0]

def putOptionalString : Option String → Except String Bytes
  | some value => do pure (1 :: (← putString value))
  | none => .ok [0]

def putSchemaId (schemaId : Option ℕ) : Bytes := flagged (littleEndian 8) schemaId

/-- The header fields, name before value. -/
def putHeaders : List MessageHeader → Except String Bytes
  | [] => .ok []
  | header :: headers => do
    let name ← putString header.name
    let value ← putString header.value
    let rest ← putHeaders headers
    pure (name ++ value ++ rest)

/-- The body of an envelope. -/
def encodeBinaryEnvelope (envelope : MessageEnvelope) : Except String Bytes := do
  let nameSpace ← putString envelope.nameSpace
  let stream ← putString envelope.stream.name
  let subject ← putString envelope.subject
  let key ← putOptionalBytes envelope.key
  if envelope.headers.length ≤ u32Max then pure () else .error "too many headers"
  let headers ← putHeaders envelope.headers
  let replyTo ← putOptionalString envelope.replyTo
  let payload ← putBytes envelope.payload
  pure (binaryBodyMagic ++ (nameSpace ++ (stream ++ (littleEndian 4 envelope.partition.value ++
    (littleEndian 8 envelope.offset ++ (subject ++ (key ++
    (littleEndian 4 envelope.headers.length ++ (headers ++ (littleEndian 8 envelope.timestampMs ++
    (replyTo ++ (putSchemaId envelope.schemaId ++ (payload ++
    (littleEndian 8 envelope.partitioningEpoch ++ (littleEndian 8 envelope.leaderEpoch ++
    littleEndian 8 envelope.legacySeq)))))))))))))))

/-- The checksum that commits and predecessor checks compare. -/
def envelopeChecksum (envelope : MessageEnvelope) : Except String ℕ :=
  crc32 <$> encodeBinaryEnvelope envelope

/-- A body behind its length and checksum. -/
def frame (body : Bytes) : Bytes :=
  littleEndian 4 body.length ++ (littleEndian 4 (crc32 body) ++ body)

/-- A batch as it is appended to a segment. -/
def encodeBatch (envelope : MessageEnvelope) : Except String Bytes := do
  let body ← encodeBinaryEnvelope envelope
  if body.length ≤ u32Max then pure (frame body)
  else .error "partition-log envelope is too large"

/-! ### Reading -/

/-- The two kinds of `io::Error` that recovery tells apart. -/
inductive ReadErrorKind
  | unexpectedEof
  | invalidData
deriving DecidableEq

structure ReadError where
  kind : ReadErrorKind
  message : String
deriving DecidableEq

def invalid (message : String) : ReadError := ⟨.invalidData, message⟩

namespace BinaryReader

def u8 : Reader ReadError ℕ := word (invalid "truncated binary envelope") 1
def u32 : Reader ReadError ℕ := word (invalid "truncated binary envelope") 4
def u64 : Reader ReadError ℕ := word (invalid "truncated binary envelope") 8

def bytes : Reader ReadError Bytes := sized (invalid "truncated binary envelope")

def string : Reader ReadError String :=
  text (invalid "truncated binary envelope") (invalid "binary envelope string is not UTF-8")

/-- An optional field is present exactly when its flag byte is one. -/
def optional {α : Type} (field : Reader ReadError α) : Reader ReadError (Option α) := do
  if (← u8) = 1 then some <$> field else pure none

def header : Reader ReadError MessageHeader := do
  let name ← string
  let value ← string
  pure ⟨name, value⟩

def streamId : Reader ReadError StreamId := do
  match StreamId.new (← string) with
  | .ok stream => pure stream
  | .error message => throw (invalid message)

/-- A partition number: the four bytes of its word. -/
def partitionId : Reader ReadError PartitionId := do
  let bytes ← ByteCodec.take (invalid "truncated binary envelope") 4
  if bounded : fromLittleEndian bytes < 2 ^ 32 then pure ⟨fromLittleEndian bytes, bounded⟩
  else throw (invalid "truncated binary envelope")

/-- The fields after the magic line. -/
def envelope : Reader ReadError MessageEnvelope := do
  let nameSpace ← string
  let stream ← streamId
  let partition ← partitionId
  let offset ← u64
  let subject ← string
  let key ← optional bytes
  let headerCount ← u32
  let headers ← repeated header headerCount
  let timestampMs ← u64
  let replyTo ← optional string
  let schemaId ← optional u64
  let payload ← bytes
  let partitioningEpoch ← u64
  let leaderEpoch ← u64
  let legacySeq ← u64
  pure { nameSpace, stream, partition, offset, subject, key, headers, timestampMs, replyTo,
         schemaId, payload, partitioningEpoch, leaderEpoch, legacySeq }

end BinaryReader

/-- Decode a body that starts with the magic line. -/
def decodeBinaryEnvelope (body : Bytes) : Except ReadError MessageEnvelope := do
  let (envelope, rest) ← BinaryReader.envelope.run (body.drop binaryBodyMagic.length)
  if rest.isEmpty then pure envelope else throw (invalid "trailing bytes in binary envelope")

/-- Bodies over this length are refused by every reader. -/
def maxBatchBytes : ℕ := 64 * 1024 * 1024

/-- Length and checksum before a batch's body. -/
def batchPrefixLen : ℕ := 8

/-- The line that starts an encrypted body. -/
def encryptedBodyMagic : Bytes := utf8 "MORROW-PLOG-ENC1\n"

variable (legacy : Bytes → Except String MessageEnvelope)

/-- Decode a body whose checksum was right; no key is configured. -/
def decodeBody (body : Bytes) :
    Except ReadError MessageEnvelope :=
  if encryptedBodyMagic.isPrefixOf body then
    .error (invalid "encrypted partition log requires key")
  else if binaryBodyMagic.isPrefixOf body then decodeBinaryEnvelope body
  else match legacy body with
    | .ok envelope => .ok envelope
    | .error message => .error (invalid s!"invalid partition-log envelope: {message}")

/-- What one attempt to read a batch does: the end of the file, a batch with its
length, or an error with the bytes consumed before it was noticed. -/
inductive BatchRead
  | finished
  | batch (envelope : MessageEnvelope) (bytes : ℕ)
  | failed (error : ReadError) (consumed : ℕ)
deriving DecidableEq

/-- Read the batch at the front of what is left of a file. -/
def readBatch (file : Bytes) : BatchRead :=
  if file.isEmpty then .finished
  else if file.length < 4 then .failed ⟨.unexpectedEof, "torn batch length"⟩ file.length
  else
    let bodyLen := fromLittleEndian (file.take 4)
    if maxBatchBytes < bodyLen then
      .failed (invalid "partition-log batch length exceeds limit") 4
    else if file.length < batchPrefixLen + bodyLen then
      .failed ⟨.unexpectedEof, "failed to fill whole buffer"⟩ file.length
    else
      let body := (file.drop batchPrefixLen).take bodyLen
      if crc32 body ≠ fromLittleEndian ((file.drop 4).take 4) then
        .failed (invalid "partition-log batch checksum mismatch") (batchPrefixLen + bodyLen)
      else match decodeBody legacy body with
        | .ok envelope => .batch envelope (batchPrefixLen + bodyLen)
        | .error error => .failed error (batchPrefixLen + bodyLen)

/-! ### Storable envelopes -/

namespace MessageEnvelope

def headerField (header : MessageHeader) : Bytes :=
  field (utf8 header.name) ++ field (utf8 header.value)

variable (envelope : MessageEnvelope)

/-- The fields after the magic line. -/
def fields : Bytes :=
  field (utf8 envelope.nameSpace) ++ (field (utf8 envelope.stream.name) ++
    (littleEndian 4 envelope.partition.value ++ (littleEndian 8 envelope.offset ++
    (field (utf8 envelope.subject) ++ (flagged field envelope.key ++
    (littleEndian 4 envelope.headers.length ++ (envelope.headers.flatMap headerField ++
    (littleEndian 8 envelope.timestampMs ++ (flagged textField envelope.replyTo ++
    (putSchemaId envelope.schemaId ++ (field envelope.payload ++
    (littleEndian 8 envelope.partitioningEpoch ++ (littleEndian 8 envelope.leaderEpoch ++
    littleEndian 8 envelope.legacySeq)))))))))))))

/-- The body, when every length fits its field. -/
def body : Bytes := binaryBodyMagic ++ envelope.fields

/-- The words fit their machine types and the body can be read back. -/
structure Storable (envelope : MessageEnvelope) : Prop where
  offset : envelope.offset < 2 ^ 64
  timestampMs : envelope.timestampMs < 2 ^ 64
  schemaId : envelope.schemaId.getD 0 < 2 ^ 64
  partitioningEpoch : envelope.partitioningEpoch < 2 ^ 64
  leaderEpoch : envelope.leaderEpoch < 2 ^ 64
  legacySeq : envelope.legacySeq < 2 ^ 64
  fits : envelope.body.length ≤ maxBatchBytes

instance (envelope : MessageEnvelope) : Decidable envelope.Storable :=
  decidable_of_iff (envelope.offset < 2 ^ 64 ∧ envelope.timestampMs < 2 ^ 64 ∧
      envelope.schemaId.getD 0 < 2 ^ 64 ∧ envelope.partitioningEpoch < 2 ^ 64 ∧
      envelope.leaderEpoch < 2 ^ 64 ∧ envelope.legacySeq < 2 ^ 64 ∧
      envelope.body.length ≤ maxBatchBytes)
    ⟨fun ⟨h₁, h₂, h₃, h₄, h₅, h₆, h₇⟩ => ⟨h₁, h₂, h₃, h₄, h₅, h₆, h₇⟩,
     fun ⟨h₁, h₂, h₃, h₄, h₅, h₆, h₇⟩ => ⟨h₁, h₂, h₃, h₄, h₅, h₆, h₇⟩⟩

/-- Every variable field is shorter than the body that contains it. -/
theorem lengths_of_short {envelope : MessageEnvelope} (short : envelope.body.length ≤ u32Max) :
    (utf8 envelope.nameSpace).length ≤ u32Max ∧ (utf8 envelope.stream.name).length ≤ u32Max ∧
      (utf8 envelope.subject).length ≤ u32Max ∧ (∀ key ∈ envelope.key, key.length ≤ u32Max) ∧
      (envelope.headers.flatMap headerField).length ≤ u32Max ∧
      (∀ replyTo ∈ envelope.replyTo, (utf8 replyTo).length ≤ u32Max) ∧
      envelope.payload.length ≤ u32Max := by
  simp only [body, fields, length_append, field_length] at short
  refine ⟨by grind, by grind, by grind, ?_, by grind, ?_, by grind⟩
  · intro key member
    have within := flagged_length_ge field member
    rw [field_length] at within
    grind
  · intro replyTo member
    have within := flagged_length_ge textField member
    rw [textField, field_length] at within
    grind

/-- A body that can be read back fits its length field. -/
theorem Storable.short {envelope : MessageEnvelope} (storable : envelope.Storable) :
    envelope.body.length ≤ u32Max := storable.fits.trans (by decide)

theorem headers_length_le (headers : List MessageHeader) :
    headers.length ≤ (headers.flatMap headerField).length := by
  induction headers with
  | nil => simp
  | cons header headers ih =>
    simp only [length_cons, flatMap_cons, length_append, headerField, field_length]
    omega

theorem header_lengths {headers : List MessageHeader} {header : MessageHeader}
    (member : header ∈ headers) :
    (utf8 header.name).length + (utf8 header.value).length ≤
      (headers.flatMap headerField).length := by
  induction headers with
  | nil => simp at member
  | cons first headers ih =>
    simp only [flatMap_cons, length_append, headerField, field_length]
    rcases mem_cons.mp member with rfl | later
    · omega
    · have rest := ih later
      omega

end MessageEnvelope

open MessageEnvelope

theorem putBytes_ok {bytes : Bytes} (short : bytes.length ≤ u32Max) :
    putBytes bytes = .ok (field bytes) := by
  simp [putBytes, field, short]

theorem putOptionalBytes_ok {value : Option Bytes}
    (short : ∀ present ∈ value, present.length ≤ u32Max) :
    putOptionalBytes value = .ok (flagged field value) := by
  cases value with
  | none => rfl
  | some value =>
    simp only [putOptionalBytes, putBytes_ok (short value rfl)]
    rfl

theorem putOptionalString_ok {value : Option String}
    (short : ∀ present ∈ value, (utf8 present).length ≤ u32Max) :
    putOptionalString value = .ok (flagged textField value) := by
  cases value with
  | none => rfl
  | some value =>
    simp only [putOptionalString, putString, putBytes_ok (short value rfl)]
    rfl

theorem putHeaders_ok {headers : List MessageHeader}
    (short : ∀ header ∈ headers,
      (utf8 header.name).length ≤ u32Max ∧ (utf8 header.value).length ≤ u32Max) :
    putHeaders headers = .ok (headers.flatMap headerField) := by
  induction headers with
  | nil => rfl
  | cons header headers ih =>
    obtain ⟨name, value⟩ := short header mem_cons_self
    have rest := ih (forall_mem_cons.mp short).2
    simp only [putHeaders, putString, putBytes_ok name, putBytes_ok value, rest]
    rfl

/-- An envelope whose body fits its length field is written without an error. -/
theorem encodeBinaryEnvelope_short {envelope : MessageEnvelope}
    (short : envelope.body.length ≤ u32Max) :
    encodeBinaryEnvelope envelope = .ok envelope.body := by
  obtain ⟨nameSpace, stream, subject, key, headers, replyTo, payload⟩ := lengths_of_short short
  have headerCount : envelope.headers.length ≤ u32Max :=
    (headers_length_le envelope.headers).trans headers
  have headerFields : putHeaders envelope.headers = .ok (envelope.headers.flatMap headerField) := by
    apply putHeaders_ok
    intro header member
    have both := header_lengths member
    exact ⟨by omega, by omega⟩
  simp only [encodeBinaryEnvelope, putString, putBytes_ok nameSpace, putBytes_ok stream,
    putBytes_ok subject, putOptionalBytes_ok key, putOptionalString_ok replyTo,
    putBytes_ok payload, headerFields, if_pos headerCount]
  rfl

/-! ### Round trip -/

namespace BinaryReader

variable {value : ℕ}

theorem reads_u8 (fits : value < 2 ^ 8) : Reads u8 (littleEndian 1 value) value :=
  Reads.word _ (by norm_num; exact fits)

theorem reads_u32 (fits : value < 2 ^ 32) : Reads u32 (littleEndian 4 value) value :=
  Reads.word _ (by norm_num; exact fits)

theorem reads_u64 (fits : value < 2 ^ 64) : Reads u64 (littleEndian 8 value) value :=
  Reads.word _ (by norm_num; exact fits)

theorem reads_bytes {value : Bytes} (short : value.length ≤ u32Max) :
    Reads bytes (field value) value :=
  Reads.sized _ (by simp only [u32Max] at short; omega)

theorem reads_string {value : String} (short : (utf8 value).length ≤ u32Max) :
    Reads string (textField value) value :=
  Reads.text _ _ (by simp only [u32Max] at short; omega)

theorem reads_optional {α : Type} {reader : Reader ReadError α} {encode : α → Bytes}
    (value : Option α) (each : ∀ present ∈ value, Reads reader (encode present) present) :
    Reads (optional reader) (flagged encode value) value := by
  cases value with
  | none =>
    have flag : Reads u8 [0] 0 := reads_u8 (by norm_num)
    exact flag.bind_last (Reads.pure none)
  | some present =>
    have flag : Reads u8 [1] 1 := reads_u8 (by norm_num)
    exact flag.bind ((each present rfl).map some)

theorem reads_streamId {stream : StreamId} (short : (utf8 stream.name).length ≤ u32Max) :
    Reads streamId (field (utf8 stream.name)) stream := by
  refine (reads_string short).bind_last ?_
  rw [StreamId.new_name]
  exact Reads.pure stream

theorem reads_partitionId (partition : PartitionId) :
    Reads partitionId (littleEndian 4 partition.value) partition := by
  have value : fromLittleEndian (littleEndian 4 partition.value) = partition.value :=
    fromLittleEndian_of_lt (by norm_num; exact partition.bounded)
  have bytes := Reads.take (invalid "truncated binary envelope") (littleEndian 4 partition.value)
  refine bytes.bind_last ?_
  simp only [value, partition.bounded]
  exact Reads.pure partition

/-- The reader returns every storable envelope from its fields, one rule per field. -/
theorem reads_envelope {stored : MessageEnvelope} (storable : stored.Storable) :
    Reads envelope stored.fields stored := by
  obtain ⟨nameSpace, stream, subject, key, headers, replyTo, payload⟩ :=
    lengths_of_short storable.short
  have headerCount : stored.headers.length < 2 ^ 32 := by
    have counted := headers_length_le stored.headers
    simp only [u32Max] at headers
    omega
  have eachHeader : Reads (repeated header stored.headers.length)
      (stored.headers.flatMap headerField) stored.headers := by
    apply Reads.repeated
    intro header member
    have both := header_lengths member
    exact (reads_string (by omega)).bind ((reads_string (by omega)).bind_last (Reads.pure header))
  have keyField : Reads (optional bytes) (flagged field stored.key) stored.key :=
    reads_optional stored.key (fun present member => reads_bytes (key present member))
  have replyToField := reads_optional stored.replyTo (fun present member => reads_string (replyTo
    present member))
  have schemaIdField : Reads (optional u64) (putSchemaId stored.schemaId) stored.schemaId := by
    apply reads_optional
    intro present member
    have bounded := storable.schemaId
    rw [Option.mem_def.mp member] at bounded
    exact reads_u64 bounded
  refine (reads_string nameSpace).bind ?_
  refine (reads_streamId stream).bind ?_
  refine (reads_partitionId stored.partition).bind ?_
  refine (reads_u64 storable.offset).bind ?_
  refine (reads_string subject).bind ?_
  refine keyField.bind ?_
  refine (reads_u32 headerCount).bind ?_
  refine eachHeader.bind ?_
  refine (reads_u64 storable.timestampMs).bind ?_
  refine replyToField.bind ?_
  refine schemaIdField.bind ?_
  refine (reads_bytes payload).bind ?_
  refine (reads_u64 storable.partitioningEpoch).bind ?_
  refine (reads_u64 storable.leaderEpoch).bind ?_
  exact (reads_u64 storable.legacySeq).bind_last (Reads.pure stored)

end BinaryReader

/-- Decoding the body of a storable envelope returns the envelope. -/
theorem decodeBinaryEnvelope_body {envelope : MessageEnvelope} (storable : envelope.Storable) :
    decodeBinaryEnvelope envelope.body = .ok envelope := by
  have dropped : envelope.body.drop binaryBodyMagic.length = envelope.fields := drop_left
  have read := (BinaryReader.reads_envelope storable).run_all
  simp only [decodeBinaryEnvelope, dropped, read]
  rfl

variable (legacy : Bytes → Except String MessageEnvelope)

/-- Binary bodies are never taken for encrypted ones. -/
theorem decodeBody_body {envelope : MessageEnvelope} (storable : envelope.Storable) :
    decodeBody legacy envelope.body = .ok envelope := by
  have notEncrypted : encryptedBodyMagic.isPrefixOf envelope.body = false := by
    rw [Bool.eq_false_iff, ne_eq, isPrefixOf_iff_prefix]
    intro encrypted
    have agreed : encryptedBodyMagic <+: binaryBodyMagic :=
      prefix_of_prefix_length_le encrypted (prefix_append binaryBodyMagic envelope.fields)
        (by decide)
    exact absurd agreed (by decide)
  have binary : binaryBodyMagic.isPrefixOf envelope.body = true :=
    isPrefixOf_iff_prefix.mpr (prefix_append binaryBodyMagic envelope.fields)
  simp only [decodeBody, binary, decodeBinaryEnvelope_body storable]
  rfl

/-! ### Batches in a file -/

@[simp] theorem frame_length (body : Bytes) :
    (frame body).length = batchPrefixLen + body.length := by
  simp [frame, batchPrefixLen]
  omega

/-- The length field of a frame. -/
theorem frame_bodyLen {body : Bytes} (short : body.length < 2 ^ 32) (rest : Bytes) :
    fromLittleEndian ((frame body ++ rest).take 4) = body.length := by
  have taken : (frame body ++ rest).take 4 = littleEndian 4 body.length := by
    rw [frame, append_assoc, take_left' (by simp)]
  have fits : body.length < 256 ^ 4 := by
    exact short
  rw [taken, fromLittleEndian_of_lt fits]

/-- The checksum field of a frame. -/
theorem frame_checksum (body rest : Bytes) :
    fromLittleEndian (((frame body ++ rest).drop 4).take 4) = crc32 body := by
  have taken : ((frame body ++ rest).drop 4).take 4 = littleEndian 4 (crc32 body) := by
    rw [frame, append_assoc, drop_left' (by simp), append_assoc,
      take_left' (by simp)]
  rw [taken, fromLittleEndian_of_lt (by norm_num; exact crc32_lt body)]

/-- The body in a frame. -/
theorem frame_contents (body rest : Bytes) :
    ((frame body ++ rest).drop batchPrefixLen).take body.length = body := by
  have shape : frame body ++ rest =
      (littleEndian 4 body.length ++ littleEndian 4 (crc32 body)) ++ (body ++ rest) := by
    simp [frame]
  rw [shape, drop_left' (by simp [batchPrefixLen]), take_left' rfl]

/-- A complete batch is read as its envelope, whatever follows it. -/
theorem readBatch_frame {body : Bytes} {envelope : MessageEnvelope}
    (fits : body.length ≤ maxBatchBytes) (decoded : decodeBody legacy body = .ok envelope)
    (rest : Bytes) :
    readBatch legacy (frame body ++ rest) = .batch envelope (batchPrefixLen + body.length) := by
  have length : (frame body ++ rest).length = batchPrefixLen + body.length + rest.length := by simp
  have short : body.length < 2 ^ 32 := by
    simp only [maxBatchBytes] at fits
    omega
  have bodyLen := frame_bodyLen short rest
  have nonempty : (frame body ++ rest).isEmpty = false := by
    rw [isEmpty_eq_false_iff, ← length_pos_iff]
    simp [batchPrefixLen]
  have longEnough : ¬ (frame body ++ rest).length < 4 := by
    rw [length]
    simp only [batchPrefixLen]
    omega
  have complete : ¬ (frame body ++ rest).length < batchPrefixLen + body.length := by
    omega
  simp only [readBatch, nonempty, if_neg longEnough, bodyLen, if_neg (not_lt.mpr fits),
    if_neg complete, frame_contents, frame_checksum, decoded, ne_eq, not_true_eq_false, if_false,
    Bool.false_eq_true]

theorem encodeBatch_short {envelope : MessageEnvelope}
    (short : envelope.body.length ≤ u32Max) :
    encodeBatch envelope = .ok (frame envelope.body) := by
  rw [encodeBatch, encodeBinaryEnvelope_short short]
  simp only [bind, Except.bind, if_pos short]
  rfl

/-- An envelope whose batch can be read back from a segment. -/
structure StoredEnvelope extends MessageEnvelope where
  storable : toMessageEnvelope.Storable
deriving DecidableEq

namespace StoredEnvelope

variable (envelope : StoredEnvelope)

/-- The checksum of a storable envelope. -/
def checksum : ℕ := crc32 envelope.body

/-- The bytes its batch takes in a segment. -/
def batchBytes : ℕ := batchPrefixLen + envelope.body.length

/-- Reading the batch of a storable envelope returns it. -/
theorem readBatch_eq (legacy : Bytes → Except String MessageEnvelope) (envelope : StoredEnvelope)
    (rest : Bytes) :
    readBatch legacy (frame envelope.body ++ rest) =
      .batch envelope.toMessageEnvelope envelope.batchBytes :=
  readBatch_frame legacy envelope.storable.fits (decodeBody_body legacy envelope.storable) rest

end StoredEnvelope

end Morrow
