import Morrow.ClientFrames

/-!
# From a publish to a delivery

A publish that the broker accepts is delivered to subscriptions that are not durable, and
to consumers that fetch. The client reads back what was published as long as the frame
with its headers is not longer than the payload may be. The other ways to lose something
are the placeholders: a dash stands for no reply subject and an empty key for no word at
all. A plain message has no place for a key, and a header of the publisher can stand in
for the key or the time that the broker did not write.
-/

namespace Morrow

open ByteCodec Text Protocol ClientFrame

/-- What a publisher publishes. -/
structure Publication where
  subject : String
  replyTo : Option String
  headers : List MessageHeader
  key : Option Bytes
  payload : Bytes
  deriving DecidableEq

def PublishRecord.publication (record : PublishRecord) : Publication :=
  ⟨record.subject, record.replyTo, record.headers, record.key, record.payload⟩

def ClientFrame.Message.publication (message : Message) : Publication :=
  ⟨message.subject, message.replyTo, message.headers, message.key, message.payload⟩

def ClientFrame.DurableMessage.publication (message : DurableMessage) : Publication :=
  ⟨message.subject, message.replyTo, message.headers, message.key, message.payload⟩

namespace Publication

/-- The delivery to a subscription that is not durable. -/
def transientFrame (publication : Publication) (sid : String) : Bytes :=
  if publication.headers = [] then
    msg publication.subject sid publication.replyTo publication.payload
  else hmsg publication.subject sid publication.replyTo publication.headers publication.payload

/-- The client reads the publication from a delivery to a subscription. -/
def ReadFromTransient (maxPayload : ℕ) (sid : String) (publication : Publication) : Prop :=
  ∀ rest, ∃ message, readFrame maxPayload (publication.transientFrame sid ++ rest) =
    .ok (some (.message message, rest)) ∧ message.publication = publication

/-- The client reads the publication from a delivery in a batch. -/
def ReadFromBatch (maxPayload : ℕ) (name : String) (record : PublishRecord)
    (attempt deadlineMs seq deliveryId : ℕ) : Prop :=
  ∀ rest, ∃ message,
    readFrame maxPayload (durableMessage name record attempt deadlineMs seq deliveryId ++ rest) =
      .ok (some (.durableMessage message, rest)) ∧ message.publication = record.publication

/-- The conditions under which nothing is lost. -/
structure Deliverable (maxPayload : ℕ) (publication : Publication) : Prop where
  fits : (utf8 (headerBlock publication.headers)).length + publication.payload.length ≤ maxPayload
  key : publication.key ≠ some []
  replyTo : publication.replyTo ≠ some "-"
  plain : publication.headers = [] →
    publication.key = none ∧ publication.replyTo.bind parseAckSubject = none
  headed : publication.headers ≠ [] →
    optional (decodeHex · "Morrow-Key-Hex") (headerValue publication.headers "Morrow-Key-Hex") =
      .ok publication.key ∧
    ∃ timestampMs, optional (parseNumber u64Max · "Morrow-Timestamp")
      (headerValue publication.headers "Morrow-Timestamp") = .ok timestampMs

variable {maxPayload : ℕ} {publication : Publication} {sid : String}

theorem readFromTransient_plain (bounded : maxPayload ≤ u64Max)
    (accepted : Accepted maxPayload publication.subject publication.replyTo publication.headers
      publication.payload) (sidWord : IsWord sid) (none_ : publication.headers = []) :
    publication.ReadFromTransient maxPayload sid ↔
      publication.key = none ∧ publication.replyTo.bind parseAckSubject = none := by
  constructor
  · intro delivered
    obtain ⟨message, read, same⟩ := delivered []
    rw [transientFrame, if_pos none_] at read
    obtain ⟨-, frame⟩ :=
      (readFrame_msg bounded accepted.subjectWord sidWord accepted.replyWord).mp read
    obtain rfl := ServerFrame.message.inj (Prod.mk.inj frame).1
    have key : none = publication.key := congrArg Publication.key same
    have reply : (if (publication.replyTo.bind parseAckSubject).isSome then none
      else publication.replyTo) = publication.replyTo := congrArg Publication.replyTo same
    refine ⟨key.symm, ?_⟩
    by_cases isAck : (publication.replyTo.bind parseAckSubject).isSome = true
    · rw [if_pos isAck] at reply
      rw [← reply]
      rfl
    · exact Option.not_isSome_iff_eq_none.mp isAck
  · rintro ⟨key, reply⟩ rest
    refine ⟨plainMessage publication.subject sid publication.replyTo publication.payload, ?_, ?_⟩
    · rw [transientFrame, if_pos none_]
      exact (readFrame_msg bounded accepted.subjectWord sidWord accepted.replyWord).mpr
        ⟨accepted.payloadFits, rfl⟩
    · obtain ⟨subject, replyTo, headers, given, payload⟩ := publication
      obtain rfl : given = none := key
      obtain rfl : headers = [] := none_
      simp only [plainMessage, Message.publication, show replyTo.bind parseAckSubject = none from
        reply, Option.isSome_none, Bool.false_eq_true, if_false]

theorem readFromTransient_headed (bounded : maxPayload ≤ u64Max)
    (accepted : Accepted maxPayload publication.subject publication.replyTo publication.headers
      publication.payload) (sidWord : IsWord sid) (some_ : publication.headers ≠ []) :
    publication.ReadFromTransient maxPayload sid ↔
      (utf8 (headerBlock publication.headers)).length + publication.payload.length ≤ maxPayload ∧
      optional (decodeHex · "Morrow-Key-Hex") (headerValue publication.headers "Morrow-Key-Hex") =
        .ok publication.key ∧
      ∃ timestampMs, optional (parseNumber u64Max · "Morrow-Timestamp")
        (headerValue publication.headers "Morrow-Timestamp") = .ok timestampMs := by
  constructor
  · intro delivered
    obtain ⟨message, read, same⟩ := delivered []
    rw [transientFrame, if_neg some_] at read
    obtain ⟨fits, found, headed, frame⟩ :=
      (readFrame_hmsg bounded accepted.subjectWord sidWord accepted.replyWord
        accepted.clean).mp read
    obtain rfl := ServerFrame.message.inj (Prod.mk.inj frame).1
    obtain ⟨key, timestampMs, decoded, parsed, rfl⟩ := headedMessage_eq_ok.mp headed
    obtain rfl : key = publication.key := congrArg Publication.key same
    exact ⟨fits, decoded, timestampMs, parsed⟩
  · rintro ⟨fits, decoded, timestampMs, parsed⟩ rest
    let message : Message := ⟨publication.subject, sid, publication.replyTo,
      headerValue publication.headers "Morrow-Ack", publication.key, timestampMs,
      publication.headers, publication.payload⟩
    have headed : headedMessage publication.subject sid publication.replyTo publication.headers
        publication.payload = .ok message :=
      headedMessage_eq_ok.mpr ⟨publication.key, timestampMs, decoded, parsed, rfl⟩
    refine ⟨message, ?_, rfl⟩
    rw [transientFrame, if_neg some_]
    exact (readFrame_hmsg bounded accepted.subjectWord sidWord accepted.replyWord
      accepted.clean).mpr ⟨fits, message, headed, rfl⟩

theorem readFromBatch_iff (bounded : maxPayload ≤ u64Max) {name stream : String}
    {record : PublishRecord} {attempt deadlineMs seq deliveryId : ℕ}
    (accepted : Accepted maxPayload record.subject record.replyTo record.headers record.payload)
    (placed : Placed name stream record attempt deadlineMs seq deliveryId) :
    ReadFromBatch maxPayload name record attempt deadlineMs seq deliveryId ↔
      record.key ≠ some [] ∧
      (utf8 (headerBlock record.headers)).length + record.payload.length ≤ maxPayload ∧
      record.replyTo ≠ some "-" := by
  have replies : (if record.replyTo.getD "-" = "-" then none else record.replyTo) = record.replyTo ↔
      record.replyTo ≠ some "-" := by
    cases record.replyTo with
    | none => simp
    | some reply =>
      by_cases dash : reply = "-" <;> simp [dash]
  constructor
  · intro delivered
    obtain ⟨message, read, same⟩ := delivered []
    obtain ⟨key, fits, frame⟩ := (readFrame_durableMessage bounded placed accepted.subjectWord
      accepted.replyWord accepted.clean).mp read
    obtain rfl := ServerFrame.durableMessage.inj (Prod.mk.inj frame).1
    exact ⟨key, fits, replies.mp (congrArg Publication.replyTo same)⟩
  · rintro ⟨key, fits, reply⟩ rest
    refine ⟨batchMessage name stream record attempt deadlineMs seq deliveryId, ?_, ?_⟩
    · exact (readFrame_durableMessage bounded placed accepted.subjectWord accepted.replyWord
        accepted.clean).mpr ⟨key, fits, rfl⟩
    · simp only [batchMessage, DurableMessage.publication, PublishRecord.publication,
        replies.mpr reply]

/-- A publish that was accepted is read back from its deliveries exactly if it is
deliverable. -/
theorem read_back_iff_deliverable {maxControlLine : ℕ} {input left : Bytes}
    {sid name stream : String}
    {subject : String} {replyTo : Option String} {headers : List MessageHeader}
    {key : Option Bytes} {payload : Bytes} {ack : Option AckRequest} {record : PublishRecord}
    {attempt deadlineMs seq deliveryId : ℕ} (bounded : maxPayload ≤ u64Max)
    (read : readCommand maxPayload maxControlLine input =
      .ok (some (.pub subject replyTo headers key payload ack, left)))
    (sidWord : IsWord sid)
    (published : record.publication = ⟨subject, replyTo, headers, key, payload⟩)
    (placed : Placed name stream record attempt deadlineMs seq deliveryId) :
    record.publication.ReadFromTransient maxPayload sid ∧
        ReadFromBatch maxPayload name record attempt deadlineMs seq deliveryId ↔
      record.publication.Deliverable maxPayload := by
  have accepted := accepted_of_readCommand read
  obtain ⟨rfl, rfl, rfl, rfl, rfl⟩ := Publication.mk.inj published
  rw [readFromBatch_iff bounded accepted placed]
  by_cases headless : record.publication.headers = []
  · rw [readFromTransient_plain bounded accepted sidWord headless]
    constructor
    · rintro ⟨plain, keyed, fits, reply⟩
      exact ⟨fits, keyed, reply, fun _ => plain, fun some_ => absurd headless some_⟩
    · intro deliverable
      exact ⟨deliverable.plain headless, deliverable.key, deliverable.fits, deliverable.replyTo⟩
  · rw [readFromTransient_headed bounded accepted sidWord headless]
    constructor
    · rintro ⟨⟨-, headed⟩, keyed, fits, reply⟩
      exact ⟨fits, keyed, reply, fun none_ => absurd none_ headless, fun _ => headed⟩
    · intro deliverable
      exact ⟨⟨deliverable.fits, deliverable.headed headless⟩, deliverable.key, deliverable.fits,
        deliverable.replyTo⟩

/-- A message of five bytes on a stream. -/
def greeting : PublishRecord :=
  ⟨1, "default", some "greetings", some 0, some 0, "a", none, [], 7, none, utf8 "hello", 0, 0⟩

theorem placed_greeting : Placed "worker" "greetings" greeting 1 30 1 1 where
  nameWord := by decide
  inStream := rfl
  streamWord := by decide
  partition := by decide
  offset := by decide
  timestampMs := by decide
  attempt := by decide
  deadlineMs := by decide
  seq := by decide
  deliveryId := by decide

/-- Twenty bytes of room are enough for it. -/
theorem greeting_read_back :
    greeting.publication.ReadFromTransient 20 "1" ∧
      ReadFromBatch 20 "worker" greeting 1 30 1 1 := by
  have read : readCommand 20 1024 (utf8 "PUB a 5\r\nhello\r\n") =
    .ok (some (.pub "a" none [] none (utf8 "hello") none, [])) := by rfl
  apply (read_back_iff_deliverable (by decide) read (by decide) rfl placed_greeting).mpr
  constructor
  · decide
  · decide
  · decide
  · exact fun _ => ⟨rfl, rfl⟩
  · exact fun headed => absurd rfl headed

/-- A payload of the greatest length is accepted and its delivery in a batch is not read:
the header block, which ends even an empty list of headers, counts as well. -/
theorem greeting_not_read_back :
    readCommand 5 1024 (utf8 "PUB a 5\r\nhello\r\n") =
        .ok (some (.pub "a" none [] none (utf8 "hello") none, [])) ∧
      greeting.publication = ⟨"a", none, [], none, utf8 "hello"⟩ ∧
      Placed "worker" "greetings" greeting 1 30 1 1 ∧
      ¬ ReadFromBatch 5 "worker" greeting 1 30 1 1 := by
  have read : readCommand 5 1024 (utf8 "PUB a 5\r\nhello\r\n") =
    .ok (some (.pub "a" none [] none (utf8 "hello") none, [])) := by rfl
  refine ⟨read, rfl, placed_greeting, fun delivered => ?_⟩
  have accepted : Accepted 5 greeting.subject greeting.replyTo greeting.headers greeting.payload :=
    accepted_of_readCommand read
  have fits := ((readFromBatch_iff (by decide) accepted placed_greeting).mp delivered).2.1
  revert fits
  decide

end Publication

end Morrow
