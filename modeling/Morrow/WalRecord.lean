import Morrow.BrokerRecords
import Morrow.FramedLog

/-!
# Records of the write-ahead log

A record is a kind byte and a body. The body lists the record's fields, words low
byte first and texts behind their length; some fields, and three whole bodies, are
JSON. In a segment a record stands behind its length and before the CRC-32 of kind
and body.

What the JSON library writes and reads is a parameter. A record is storable when
its fields fit their encodings, when the JSON library reads back what it wrote for
it, and when its body does not begin with the line that marks encrypted bodies: no
key is configured here, and such a body is refused on reading.
-/

namespace Morrow

open ByteCodec FramedLog List

/-- What the JSON library writes for a value, and what it reads. -/
structure Json (α : Type) where
  toVec : α → Bytes
  fromSlice : Bytes → Except String α

/-- The library reads back what it wrote. -/
def Json.RoundTrips {α : Type} (json : Json α) (value : α) : Prop :=
  json.fromSlice (json.toVec value) = .ok value

/-- The JSON values in WAL records. -/
structure WalJson where
  startPosition : Json StartPosition
  retryPolicy : Json RetryPolicy
  cursors : Json ConsumerCursorSet
  offsets : Json (Finset ℕ)
  deadLetter : Json DeadLetterRecord
  producerSequence : Json ProducerSequenceRecord
  groupState : Json (String × GroupRecord)

inductive WalRecord
  | publish (record : PublishRecord)
  | consumerUpsert (record : ConsumerRecord)
  | deliveryAttempt (record : DeliveryAttemptRecord)
  | ack (record : AckRecord)
  | partitionAppend (record : PartitionAppendRecord)
  | consumerCursor (record : ConsumerCursorRecord)
  | consumerDelete (consumerId : String)
  | deadLetter (record : DeadLetterRecord)
  | deadLetterPurge (id : ℕ)
  | producerSequence (record : ProducerSequenceRecord)
  | groupState (group : String) (record : GroupRecord)
  | consumerCursorDelta (record : ConsumerCursorDeltaRecord)
deriving DecidableEq

/-- The kind byte of a record. -/
def WalRecord.kind : WalRecord → UInt8
  | .publish _ => 1
  | .consumerUpsert _ => 2
  | .deliveryAttempt _ => 3
  | .ack _ => 4
  | .partitionAppend _ => 5
  | .consumerCursor _ => 6
  | .consumerDelete _ => 7
  | .deadLetter _ => 8
  | .deadLetterPurge _ => 9
  | .producerSequence _ => 10
  | .groupState _ _ => 11
  | .consumerCursorDelta _ => 12

/-! ### Writing -/

/-- One field of a body. A narrow field is a word of the machine's size that is
written in four bytes and refused with the given message when it is too large. -/
inductive WalField
  | u64 (value : ℕ)
  | u32 (value : ℕ)
  | narrow (value : ℕ) (message : String)
  | flag (value : Bool)
  | bytes (value : Bytes)
  | optionText (value : Option String)
  | optionU64 (value : Option ℕ)
  | raw (value : Bytes)

namespace WalField

def text (value : String) : WalField := .bytes (utf8 value)

def putBytes (value : Bytes) : Except String Bytes :=
  if value.length ≤ u32Max then .ok (field value) else .error "field too large"

/-- Write one field. -/
def write : WalField → Except String Bytes
  | .u64 value => .ok (littleEndian 8 value)
  | .u32 value => .ok (littleEndian 4 value)
  | .narrow value message => if value ≤ u32Max then .ok (littleEndian 4 value) else .error message
  | .flag value => .ok [if value then 1 else 0]
  | .bytes value => putBytes value
  | .optionText (some value) => (1 :: ·) <$> putBytes (utf8 value)
  | .optionText none => .ok [0]
  | .optionU64 value => .ok (flagged (littleEndian 8) value)
  | .raw value => .ok value

/-- What is written when the field fits. -/
def encoding : WalField → Bytes
  | .u64 value => littleEndian 8 value
  | .u32 value => littleEndian 4 value
  | .narrow value _ => littleEndian 4 value
  | .flag value => [if value then 1 else 0]
  | .bytes value => field value
  | .optionText value => flagged textField value
  | .optionU64 value => flagged (littleEndian 8) value
  | .raw value => value

/-- The value fits its machine type and its length field. -/
def Fits : WalField → Prop
  | .u64 value => value < 2 ^ 64
  | .u32 value => value < 2 ^ 32
  | .narrow value _ => value ≤ u32Max
  | .flag _ => True
  | .bytes value => value.length ≤ u32Max
  | .optionText value => ∀ present ∈ value, (utf8 present).length ≤ u32Max
  | .optionU64 value => ∀ present ∈ value, present < 2 ^ 64
  | .raw _ => True

theorem write_of_fits {field : WalField} (fits : field.Fits) :
    field.write = .ok field.encoding := by
  cases field with
  | u64 value => rfl
  | u32 value => rfl
  | narrow value message => exact if_pos fits
  | flag value => rfl
  | bytes value => exact if_pos fits
  | optionText value =>
    cases value with
    | none => rfl
    | some present =>
      have short : (utf8 present).length ≤ u32Max := fits present rfl
      simp only [write, putBytes, if_pos short]
      rfl
  | optionU64 value => rfl
  | raw value => rfl

end WalField

/-- Write the fields of a body in order. -/
def writeFields : List WalField → Except String Bytes
  | [] => .ok []
  | field :: fields => do
    let first ← field.write
    let rest ← writeFields fields
    pure (first ++ rest)

theorem writeFields_of_fits {fields : List WalField} (fits : ∀ field ∈ fields, field.Fits) :
    writeFields fields = .ok (fields.flatMap WalField.encoding) := by
  induction fields with
  | nil => rfl
  | cons field fields ih =>
    have first := WalField.write_of_fits (fits field mem_cons_self)
    have rest := ih (forall_mem_cons.mp fits).2
    simp only [writeFields, first, rest]
    rfl

namespace WalRecord

/-- The fields of a record's body, in the order in which they are written. -/
def fields (json : WalJson) : WalRecord → List WalField
  | .publish record =>
    [.u64 record.seq, .text record.subject, .optionText record.replyTo, .bytes record.payload,
      .optionText record.stream]
  | .consumerUpsert record =>
    [.text record.consumerId, .text record.filterSubject, .optionText record.queueGroup,
      .u64 record.ackTimeoutMs, .narrow record.maxInFlight "max_in_flight too large",
      .bytes (json.startPosition.toVec record.startPosition),
      .bytes (json.retryPolicy.toVec record.retryPolicy)]
  | .deliveryAttempt record =>
    [.u64 record.seq, .text record.consumerId, .u64 record.deliveryId, .u64 record.deadlineMs,
      .u32 record.attempt, .flag record.retryWaiting]
  | .ack record => [.u64 record.seq, .text record.consumerId, .u64 record.deliveryId]
  | .partitionAppend record =>
    [.u64 record.seq, .text record.stream, .u32 record.partition, .u64 record.offset,
      .text record.subject]
  | .consumerCursor record =>
    [.text record.consumerId, .bytes (json.cursors.toVec record.cursors)]
  | .consumerDelete consumerId => [.text consumerId]
  | .deadLetter record => [.raw (json.deadLetter.toVec record)]
  | .deadLetterPurge id => [.u64 id]
  | .producerSequence record => [.raw (json.producerSequence.toVec record)]
  | .groupState group record => [.raw (json.groupState.toVec (group, record))]
  | .consumerCursorDelta record =>
    [.text record.consumerId, .narrow record.ackWindow "ack window too large",
      .text record.cursor.stream, .u32 record.cursor.partition, .u64 record.cursor.committedOffset,
      .optionU64 record.cursor.deliveredOffset,
      .bytes (json.offsets.toVec record.cursor.acknowledgedOffsets),
      .u64 record.cursor.retentionGaps]

/-- The body that is written when every field fits. -/
def body (json : WalJson) (record : WalRecord) : Bytes :=
  (record.fields json).flatMap WalField.encoding

end WalRecord

/-! ### Reading a body -/

namespace WalCursor

def u32 : Reader String ℕ := word "truncated WAL record" 4
def u64 : Reader String ℕ := word "truncated WAL record" 8
def bytes : Reader String Bytes := sized "truncated WAL record"
def string : Reader String String := text "truncated WAL record" "WAL string is not UTF-8"

/-- A byte that is read as a truth value. -/
def flag : Reader String Bool := do return (← word "truncated WAL record" 1) ≠ 0

def optionString : Reader String (Option String) := do
  match ← word "truncated WAL record" 1 with
  | 0 => pure none
  | 1 => some <$> string
  | _ => throw "invalid optional string marker"

def optionU64 : Reader String (Option ℕ) := do
  if ← flag then some <$> u64 else pure none

/-- A field of JSON; an error is reported as the given context. -/
def json {α : Type} (library : Json α) (context : String) : Reader String α := do
  match library.fromSlice (← bytes) with
  | .ok value => pure value
  | .error _ => throw context

/-- A field that older writers left out. -/
def orDefault {α : Type} (default : α) (field : Reader String α) : Reader String α := do
  if (← get).isEmpty then pure default else field

/-- Read a whole body. -/
def finish {α : Type} (reader : Reader String α) (body : Bytes) : Except String α := do
  let (value, rest) ← reader.run body
  if rest.isEmpty then pure value else .error "trailing bytes in WAL record"

end WalCursor

open WalCursor

/-- The message every publish record of the WAL stands for. -/
def PublishRecord.ofWal (seq : ℕ) (subject : String) (replyTo : Option String) (payload : Bytes)
    (stream : Option String) : PublishRecord where
  seq := seq
  nameSpace := "default"
  stream := stream
  partition := none
  offset := none
  subject := subject
  key := none
  headers := []
  timestampMs := 0
  replyTo := replyTo
  payload := payload
  partitioningEpoch := 0
  leaderEpoch := 0

def decodePublish (body : Bytes) : Except String PublishRecord :=
  finish (do
    let seq ← u64
    let subject ← string
    let replyTo ← optionString
    let payload ← bytes
    let stream ← orDefault none optionString
    pure (PublishRecord.ofWal seq subject replyTo payload stream)) body

variable (library : WalJson)

def decodeConsumerUpsert (body : Bytes) : Except String ConsumerRecord :=
  finish (do
    let consumerId ← string
    let filterSubject ← string
    let queueGroup ← optionString
    let ackTimeoutMs ← u64
    let maxInFlight ← u32
    let startPosition ← orDefault .latest
      (json library.startPosition "decoding consumer start position")
    let retryPolicy ← orDefault RetryPolicy.default
      (json library.retryPolicy "decoding consumer retry policy")
    pure { consumerId, filterSubject, queueGroup, ackTimeoutMs, maxInFlight, startPosition,
           retryPolicy }) body

def decodeDeliveryAttempt (body : Bytes) : Except String DeliveryAttemptRecord :=
  finish (do
    let seq ← u64
    let consumerId ← string
    let deliveryId ← u64
    let deadlineMs ← u64
    let attempt ← u32
    let retryWaiting ← orDefault false flag
    pure { seq, consumerId, deliveryId, deadlineMs, attempt, retryWaiting }) body

def decodeAck (body : Bytes) : Except String AckRecord :=
  finish (do
    let seq ← u64
    let consumerId ← string
    let deliveryId ← u64
    pure { seq, consumerId, deliveryId }) body

def decodePartitionAppend (body : Bytes) : Except String PartitionAppendRecord :=
  finish (do
    let seq ← u64
    let stream ← string
    let partition ← u32
    let offset ← u64
    let subject ← string
    pure { seq, stream, partition, offset, subject }) body

def decodeConsumerCursor (body : Bytes) : Except String ConsumerCursorRecord :=
  finish (do
    let consumerId ← string
    let cursors ← json library.cursors "decoding consumer cursors"
    pure { consumerId, cursors }) body

def decodeConsumerCursorDelta (body : Bytes) :
    Except String ConsumerCursorDeltaRecord :=
  finish (do
    let consumerId ← string
    let ackWindow ← u32
    let stream ← string
    let partition ← u32
    let committedOffset ← u64
    let deliveredOffset ← optionU64
    let acknowledgedOffsets ← json library.offsets "decoding acknowledged offsets"
    let retentionGaps ← u64
    pure ⟨consumerId, ackWindow, ⟨stream, partition, committedOffset, deliveredOffset,
      acknowledgedOffsets, retentionGaps⟩⟩) body

def decodeConsumerDelete (body : Bytes) : Except String String := finish string body

def decodeDeadLetterPurge (body : Bytes) : Except String ℕ := finish u64 body

/-- A body that is JSON as a whole. -/
def decodeJson {α : Type} (library : Json α) (context : String) (body : Bytes) : Except String α :=
  match library.fromSlice body with
  | .ok value => .ok value
  | .error _ => .error context

variable (kind : UInt8)

/-- Decode a record of any kind. -/
def decodeRecord (body : Bytes) : Except String WalRecord :=
  match kind.toNat with
  | 1 => .publish <$> decodePublish body
  | 2 => .consumerUpsert <$> decodeConsumerUpsert library body
  | 3 => .deliveryAttempt <$> decodeDeliveryAttempt body
  | 4 => .ack <$> decodeAck body
  | 5 => .partitionAppend <$> decodePartitionAppend body
  | 6 => .consumerCursor <$> decodeConsumerCursor library body
  | 7 => .consumerDelete <$> decodeConsumerDelete body
  | 8 => .deadLetter <$> decodeJson library.deadLetter "decoding dead-letter record" body
  | 9 => .deadLetterPurge <$> decodeDeadLetterPurge body
  | 10 => .producerSequence <$>
      decodeJson library.producerSequence "decoding producer sequence record" body
  | 11 => (fun state => .groupState state.1 state.2) <$>
      decodeJson library.groupState "decoding consumer-group state" body
  | 12 => .consumerCursorDelta <$> decodeConsumerCursorDelta library body
  | other => .error s!"unknown WAL record kind {other}"

/-! ### Records in a segment -/

/-- The bytes of a record in a segment. -/
def encodeRecord (body : Bytes) : Bytes :=
  littleEndian 4 (body.length + 1) ++ (kind :: body ++ littleEndian 4 (crc32 (kind :: body)))

/-- The size of a record in a segment. -/
def recordSize (body : Bytes) : Except String ℕ :=
  if body.length + 1 ≤ u32Max then .ok (4 + (body.length + 1) + 4)
  else .error "WAL record too large"

/-- Read one record. Fewer bytes than a length field are taken for the end of the
segment, whether or not there are any. -/
def readRecord (file : Bytes) : ReadStep (UInt8 × Bytes) :=
  if file.length < 4 then .ended
  else
    let length := fromLittleEndian (file.take 4)
    if length = 0 then .corrupt "zero-length WAL record"
    else if file.length < 4 + length + 4 then .torn
    else
      let record := (file.drop 4).take length
      let expected := fromLittleEndian ((file.drop (4 + length)).take 4)
      if expected ≠ crc32 record then .corrupt "WAL checksum mismatch"
      else .record (record.headD 0, record.tail) (4 + length + 4)

/-- The line before an encrypted body. -/
def walEncryptedMagic : Bytes := utf8 "MORROW-WAL-ENC1\n"

/-- The body without encryption; no key is configured. -/
def unprotectBody (body : Bytes) : Except String Bytes :=
  if walEncryptedMagic <+: body then .error "encrypted WAL requires a key provider" else .ok body

/-! ### Round trips of the fields -/

namespace WalCursor

theorem reads_u32 {value : ℕ} (fits : value ≤ u32Max) : Reads u32 (littleEndian 4 value) value :=
  Reads.word _ (Nat.lt_of_le_of_lt fits (by decide))

theorem reads_u64 {value : ℕ} (fits : value < 2 ^ 64) : Reads u64 (littleEndian 8 value) value :=
  Reads.word _ (by simpa using fits)

theorem reads_bytes {value : Bytes} (fits : value.length ≤ u32Max) :
    Reads bytes (field value) value :=
  Reads.sized _ (Nat.lt_of_le_of_lt fits (by decide))

theorem reads_string {value : String} (fits : (utf8 value).length ≤ u32Max) :
    Reads string (textField value) value :=
  Reads.text _ _ (Nat.lt_of_le_of_lt fits (by decide))

/-- A single byte is a word of width one. -/
theorem reads_byte (value : ℕ) (fits : value < 256) :
    Reads (word "truncated WAL record" 1) [UInt8.ofNat value] value :=
  Reads.word _ (show value < 256 ^ 1 by simpa using fits)

theorem reads_flag (value : Bool) : Reads flag [if value then 1 else 0] value := by
  cases value with
  | false => exact (reads_byte 0 (by decide)).bind_last (Reads.pure false)
  | true => exact (reads_byte 1 (by decide)).bind_last (Reads.pure true)

theorem reads_optionString {value : Option String}
    (fits : ∀ present ∈ value, (utf8 present).length ≤ u32Max) :
    Reads optionString (flagged textField value) value := by
  cases value with
  | none => exact (reads_byte 0 (by decide)).bind_last (Reads.pure none)
  | some present =>
    have text := (reads_string (fits present rfl)).map some
    exact (reads_byte 1 (by decide)).bind text

theorem reads_optionU64 {value : Option ℕ} (fits : ∀ present ∈ value, present < 2 ^ 64) :
    Reads optionU64 (flagged (littleEndian 8) value) value := by
  cases value with
  | none => exact (reads_flag false).bind_last (Reads.pure none)
  | some present =>
    have number := (reads_u64 (fits present rfl)).map some
    exact (reads_flag true).bind number

theorem reads_json {α : Type} {library : Json α} {value : α} (context : String)
    (fits : (library.toVec value).length ≤ u32Max) (roundTrips : library.RoundTrips value) :
    Reads (json library context) (field (library.toVec value)) value := by
  apply (reads_bytes fits).bind_last
  have parsed : library.fromSlice (library.toVec value) = .ok value := roundTrips
  simp only [parsed]
  exact Reads.pure value

/-- A field that is present is read. -/
theorem reads_orDefault {α : Type} {reader : Reader String α} {encoding : Bytes} {value : α}
    (reads : Reads reader encoding value) (nonempty : encoding ≠ []) (default : α) :
    Reads (orDefault default reader) encoding value := by
  intro rest
  have run : (orDefault default reader).run (encoding ++ rest) = reader.run (encoding ++ rest) := by
    simp [orDefault, nonempty]
  rw [run, reads rest]

theorem finish_reads {α : Type} {reader : Reader String α} {encoding : Bytes} {value : α}
    (reads : Reads reader encoding value) : finish reader encoding = .ok value := by
  simp only [finish, reads.run_all]
  rfl

end WalCursor

/-! ### Round trips of the records -/

namespace WalRecord

/-- The body says everything about the record: the JSON library reads its own
output back, and a publish record has no field that its body leaves out. -/
def Kept (json : WalJson) : WalRecord → Prop
  | .publish record =>
    record = PublishRecord.ofWal record.seq record.subject record.replyTo record.payload
      record.stream
  | .consumerUpsert record =>
    json.startPosition.RoundTrips record.startPosition ∧
      json.retryPolicy.RoundTrips record.retryPolicy
  | .consumerCursor record => json.cursors.RoundTrips record.cursors
  | .deadLetter record => json.deadLetter.RoundTrips record
  | .producerSequence record => json.producerSequence.RoundTrips record
  | .groupState group record => json.groupState.RoundTrips (group, record)
  | .consumerCursorDelta record => json.offsets.RoundTrips record.cursor.acknowledgedOffsets
  | _ => True

/-- The sequence numbers and delivery ids that a replay counts on from. -/
def counters : WalRecord → List ℕ
  | .publish record => [record.seq]
  | .deliveryAttempt record => [record.deliveryId]
  | .ack record => [record.deliveryId]
  | .partitionAppend record => [record.seq]
  | _ => []

/-- A record that can be written and read back. -/
structure Storable (json : WalJson) (record : WalRecord) : Prop where
  fits : ∀ field ∈ record.fields json, field.Fits
  kept : record.Kept json
  short : (record.body json).length < u32Max
  long : 4 ≤ (record.body json).length
  plain : ¬ walEncryptedMagic <+: record.body json
  counted : ∀ counter ∈ record.counters, counter < u64Max

variable {json : WalJson}

theorem Storable.each {record : WalRecord} (storable : record.Storable json) :
    (record.fields json).Forall WalField.Fits :=
  forall_iff_forall_mem.mpr storable.fits

theorem decodePublish_body {record : PublishRecord} (storable : Storable json (.publish record)) :
    decodePublish (body json (.publish record)) = .ok record := by
  obtain ⟨seq, subject, replyTo, payload, stream⟩ := storable.each
  have same := storable.kept
  rw [same]
  exact finish_reads ((reads_u64 seq).bind ((reads_string subject).bind
    ((reads_optionString replyTo).bind ((reads_bytes payload).bind
      ((reads_orDefault (reads_optionString stream) (flagged_ne_nil _ _) none).bind
        (Reads.pure _))))))

theorem decodeConsumerUpsert_body {record : ConsumerRecord}
    (storable : Storable json (.consumerUpsert record)) :
    decodeConsumerUpsert json (body json (.consumerUpsert record)) = .ok record := by
  obtain ⟨consumerId, filterSubject, queueGroup, ackTimeoutMs, maxInFlight, startPosition,
    retryPolicy⟩ := storable.each
  obtain ⟨startKept, retryKept⟩ := storable.kept
  exact finish_reads ((reads_string consumerId).bind ((reads_string filterSubject).bind
    ((reads_optionString queueGroup).bind ((reads_u64 ackTimeoutMs).bind
      ((reads_u32 maxInFlight).bind
        ((reads_orDefault (reads_json _ startPosition startKept) (field_ne_nil _) _).bind
          ((reads_orDefault (reads_json _ retryPolicy retryKept) (field_ne_nil _) _).bind
            (Reads.pure _))))))))

theorem decodeDeliveryAttempt_body {record : DeliveryAttemptRecord}
    (storable : Storable json (.deliveryAttempt record)) :
    decodeDeliveryAttempt (body json (.deliveryAttempt record)) = .ok record := by
  obtain ⟨seq, consumerId, deliveryId, deadlineMs, attempt, -⟩ := storable.each
  have attempts : record.attempt ≤ u32Max := Nat.le_sub_one_of_lt attempt
  exact finish_reads ((reads_u64 seq).bind ((reads_string consumerId).bind
    ((reads_u64 deliveryId).bind ((reads_u64 deadlineMs).bind ((reads_u32 attempts).bind
      ((reads_orDefault (reads_flag record.retryWaiting) (cons_ne_nil _ _) false).bind
        (Reads.pure _)))))))

theorem decodeAck_body {record : AckRecord} (storable : Storable json (.ack record)) :
    decodeAck (body json (.ack record)) = .ok record := by
  obtain ⟨seq, consumerId, deliveryId⟩ := storable.each
  exact finish_reads ((reads_u64 seq).bind ((reads_string consumerId).bind
    ((reads_u64 deliveryId).bind (Reads.pure _))))

theorem decodePartitionAppend_body {record : PartitionAppendRecord}
    (storable : Storable json (.partitionAppend record)) :
    decodePartitionAppend (body json (.partitionAppend record)) = .ok record := by
  obtain ⟨seq, stream, partition, offset, subject⟩ := storable.each
  have partitions : record.partition ≤ u32Max := Nat.le_sub_one_of_lt partition
  exact finish_reads ((reads_u64 seq).bind ((reads_string stream).bind
    ((reads_u32 partitions).bind ((reads_u64 offset).bind ((reads_string subject).bind
      (Reads.pure _))))))

theorem decodeConsumerCursor_body {record : ConsumerCursorRecord}
    (storable : Storable json (.consumerCursor record)) :
    decodeConsumerCursor json (body json (.consumerCursor record)) = .ok record := by
  obtain ⟨consumerId, cursors⟩ := storable.each
  exact finish_reads ((reads_string consumerId).bind
    ((reads_json _ cursors storable.kept).bind (Reads.pure _)))

theorem decodeConsumerCursorDelta_body {record : ConsumerCursorDeltaRecord}
    (storable : Storable json (.consumerCursorDelta record)) :
    decodeConsumerCursorDelta json (body json (.consumerCursorDelta record)) = .ok record := by
  obtain ⟨consumerId, ackWindow, stream, partition, committed, delivered, acknowledged, gaps⟩ :=
    storable.each
  have partitions : record.cursor.partition ≤ u32Max := Nat.le_sub_one_of_lt partition
  exact finish_reads ((reads_string consumerId).bind ((reads_u32 ackWindow).bind
    ((reads_string stream).bind ((reads_u32 partitions).bind ((reads_u64 committed).bind
      ((reads_optionU64 delivered).bind ((reads_json _ acknowledged storable.kept).bind
        ((reads_u64 gaps).bind (Reads.pure _)))))))))

theorem decodeConsumerDelete_body {consumerId : String}
    (storable : Storable json (.consumerDelete consumerId)) :
    decodeConsumerDelete (body json (.consumerDelete consumerId)) = .ok consumerId := by
  have text := storable.fits (.text consumerId) mem_cons_self
  have whole : body json (.consumerDelete consumerId) = textField consumerId := append_nil _
  rw [whole]
  exact finish_reads (reads_string text)

theorem decodeJson_toVec {α : Type} {library : Json α} {value : α} (context : String)
    (roundTrips : library.RoundTrips value) :
    decodeJson library context (library.toVec value ++ []) = .ok value := by
  have parsed : library.fromSlice (library.toVec value) = .ok value := roundTrips
  simp [decodeJson, parsed]

/-- A storable record is decoded as it was written. -/
theorem decodeRecord_body {record : WalRecord} (storable : record.Storable json) :
    decodeRecord json record.kind (record.body json) = .ok record := by
  cases record with
  | publish record => exact congrArg (_ <$> ·) (decodePublish_body storable)
  | consumerUpsert record => exact congrArg (_ <$> ·) (decodeConsumerUpsert_body storable)
  | deliveryAttempt record => exact congrArg (_ <$> ·) (decodeDeliveryAttempt_body storable)
  | ack record => exact congrArg (_ <$> ·) (decodeAck_body storable)
  | partitionAppend record => exact congrArg (_ <$> ·) (decodePartitionAppend_body storable)
  | consumerCursor record => exact congrArg (_ <$> ·) (decodeConsumerCursor_body storable)
  | consumerDelete consumerId => exact congrArg (_ <$> ·) (decodeConsumerDelete_body storable)
  | deadLetter record => exact congrArg (_ <$> ·) (decodeJson_toVec _ storable.kept)
  | deadLetterPurge id =>
    exact congrArg (_ <$> ·) (finish_reads (reads_u64 (storable.fits (.u64 id) mem_cons_self)))
  | producerSequence record => exact congrArg (_ <$> ·) (decodeJson_toVec _ storable.kept)
  | groupState group record => exact congrArg (_ <$> ·) (decodeJson_toVec _ storable.kept)
  | consumerCursorDelta record =>
    exact congrArg (_ <$> ·) (decodeConsumerCursorDelta_body storable)

end WalRecord

/-! ### Round trips of the frames -/

theorem encodeRecord_length (body : Bytes) :
    (encodeRecord kind body).length = body.length + 9 := by
  simp only [encodeRecord, length_append, length_cons, littleEndian_length]
  omega

/-- Fewer bytes than a length field end the segment. -/
theorem readRecord_short {file : Bytes} (short : file.length < 4) : readRecord file = .ended :=
  if_pos short

/-- A file that ends before its first record does is torn. -/
theorem readRecord_torn {file : Bytes} (long : 4 ≤ file.length)
    (positive : fromLittleEndian (file.take 4) ≠ 0)
    (ends : file.length < 4 + fromLittleEndian (file.take 4) + 4) : readRecord file = .torn := by
  simp only [readRecord, if_neg (Nat.not_lt.mpr long), if_neg positive, if_pos ends]

/-- The length field of an encoded record. -/
theorem take_encodeRecord {body : Bytes} (short : body.length < u32Max) (kind : UInt8)
    (rest : Bytes) :
    fromLittleEndian ((encodeRecord kind body ++ rest).take 4) = body.length + 1 := by
  have fits : body.length + 1 < 256 ^ 4 := by
    simp only [u32Max] at short
    omega
  have front : (encodeRecord kind body ++ rest).take 4 = littleEndian 4 (body.length + 1) := by
    exact take_left' (littleEndian_length 4 _)
  rw [front, fromLittleEndian_of_lt fits]

/-- A record is read back in front of whatever follows it. -/
theorem readRecord_encodeRecord {body : Bytes} (short : body.length < u32Max) (kind : UInt8)
    (rest : Bytes) :
    readRecord (encodeRecord kind body ++ rest) =
      .record (kind, body) (encodeRecord kind body).length := by
  have length := take_encodeRecord short kind rest
  have size : (encodeRecord kind body ++ rest).length = body.length + 9 + rest.length := by
    rw [length_append, encodeRecord_length]
  have content : (encodeRecord kind body ++ rest).drop 4 =
      (kind :: body) ++ (littleEndian 4 (crc32 (kind :: body)) ++ rest) := by
    rw [encodeRecord, append_assoc, append_assoc]
    exact drop_left' (littleEndian_length 4 _)
  have record : ((encodeRecord kind body ++ rest).drop 4).take (body.length + 1) =
      kind :: body := by
    rw [content]
    exact take_left' rfl
  have checksum : ((encodeRecord kind body ++ rest).drop (4 + (body.length + 1))).take 4 =
      littleEndian 4 (crc32 (kind :: body)) := by
    have recordLength : (kind :: body).length = body.length + 1 := rfl
    rw [← drop_drop, content, drop_left' recordLength]
    exact take_left' (littleEndian_length 4 _)
  have stored : fromLittleEndian (littleEndian 4 (crc32 (kind :: body))) = crc32 (kind :: body) :=
    fromLittleEndian_of_lt (crc32_lt _)
  have long : ¬ (encodeRecord kind body ++ rest).length < 4 := by omega
  have whole : ¬ (encodeRecord kind body ++ rest).length < 4 + (body.length + 1) + 4 := by omega
  have positive : body.length + 1 ≠ 0 := Nat.succ_ne_zero _
  simp only [readRecord, length, record, checksum, stored, if_neg long, if_neg whole, if_neg
    positive, ne_eq, not_true, if_false]
  rw [encodeRecord_length]
  congr 1
  omega

/-- A record cut behind its length field is torn. -/
theorem readRecord_cut {body : Bytes} (short : body.length < u32Max) {kind : UInt8} {cut : Bytes}
    (front : cut <+: encodeRecord kind body) (long : 4 ≤ cut.length)
    (strict : cut.length < (encodeRecord kind body).length) : readRecord cut = .torn := by
  have length : fromLittleEndian (cut.take 4) = body.length + 1 := by
    obtain ⟨rest, whole⟩ := front
    have taken := take_encodeRecord short kind []
    rwa [append_nil, ← whole, take_append_of_le_length long] at taken
  rw [encodeRecord_length] at strict
  apply readRecord_torn long
  · omega
  · omega

/-- Stray bytes before a record shift its length field, and the length that is
read instead reaches beyond the record. -/
theorem readRecord_stray {stray body : Bytes} (some : stray ≠ []) (few : stray.length < 4)
    (small : body.length < 255) (kind : UInt8) :
    readRecord (stray ++ encodeRecord kind body) = .torn := by
  obtain ⟨rest, front⟩ : ∃ rest, encodeRecord kind body = UInt8.ofNat (body.length + 1) :: rest :=
    ⟨_, rfl⟩
  obtain ⟨room, four⟩ : ∃ room, 4 - stray.length = room + 1 := ⟨3 - stray.length, by omega⟩
  have field : (stray ++ encodeRecord kind body).take 4 =
      stray ++ UInt8.ofNat (body.length + 1) :: rest.take room := by
    rw [take_append, take_of_length_le (by omega), four, front, take_succ_cons]
  have byte : (UInt8.ofNat (body.length + 1)).toNat = body.length + 1 := by
    simp only [UInt8.toNat_ofNat']
    omega
  have shift : 256 ^ 1 ≤ 256 ^ stray.length :=
    Nat.pow_le_pow_right (by decide) (length_pos_iff.mpr some)
  have reach : 256 * (body.length + 1) ≤
      fromLittleEndian ((stray ++ encodeRecord kind body).take 4) := by
    rw [field, fromLittleEndian_append, fromLittleEndian, byte]
    calc 256 * (body.length + 1)
        ≤ 256 ^ stray.length * (body.length + 1 + 256 * fromLittleEndian (rest.take room)) :=
          Nat.mul_le_mul (by simpa using shift) (Nat.le_add_right _ _)
      _ ≤ _ := Nat.le_add_left _ _
  have size : (stray ++ encodeRecord kind body).length = stray.length + (body.length + 9) := by
    rw [length_append, encodeRecord_length]
  apply readRecord_torn
  · omega
  · omega
  · omega

/-- A record that can be written, for the given JSON library. -/
structure StoredRecord (json : WalJson) where
  record : WalRecord
  storable : record.Storable json

/-- The bytes of a record in a segment. -/
def StoredRecord.encode {json : WalJson} (stored : StoredRecord json) : Bytes :=
  encodeRecord stored.record.kind (stored.record.body json)

end Morrow
