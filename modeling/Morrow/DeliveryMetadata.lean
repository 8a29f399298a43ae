import Morrow.ConsumerIds
import Morrow.Publications

/-!
# What a delivery says about itself

The broker puts the acknowledgement subject, the key and the time of a message among the
headers of a delivery, after those of the publisher. The client takes the first header of
a name, so a publisher who used the name first has their value taken. The identifiers of
a consumer may have slashes, and then the acknowledgement subject cannot be taken apart.
-/

namespace Morrow

open ByteCodec Text Protocol ClientFrame List Subject

/-! ### Acknowledgement subjects -/

variable {text : String}

theorem split_slashless (plain : '/' ∉ text.toList) :
    split text = [text] := by
  have single : joined [text] = text := by simp [joined]
  have tokens : ∀ token ∈ [text], '/' ∉ token.toList := by
    intro token member
    rwa [mem_singleton.mp member]
  have split := split_joined (cons_ne_nil _ _) tokens
  rwa [single] at split

theorem slash_notMem_of_split {token : String} (split : split text = [token]) :
    token = text ∧ '/' ∉ text.toList := by
  have whole := joined_split text
  rw [split] at whole
  have same : token = text := by simpa [joined] using whole
  refine ⟨same, ?_⟩
  rw [← same]
  apply not_mem_split
  rw [split]
  exact mem_singleton_self _

theorem slash_notMem_decimal (value : ℕ) : '/' ∉ (decimal value).toList := by
  intro member
  rw [decimal, Nat.toString_eq_repr, Nat.toList_repr] at member
  have digit := Nat.isDigit_of_mem_toDigits (by decide) (by decide) member
  exact absurd digit (by decide)

theorem split_lease (root consumerId : String) (seq deliveryId : ℕ) :
    split (root ++ "/" ++ consumerId ++ "/" ++ decimal seq ++ "/" ++ decimal deliveryId) =
      split root ++ split consumerId ++ [decimal seq] ++ [decimal deliveryId] := by
  rw [split_append, split_append, split_append,
    split_slashless (slash_notMem_decimal seq), split_slashless (slash_notMem_decimal deliveryId)]

theorem split_ackSubject (consumerId : String) (seq deliveryId : ℕ) :
    split (ackSubject consumerId seq deliveryId) =
      ["_MORROW", "ACK"] ++ split consumerId ++ [decimal seq] ++ [decimal deliveryId] := by
  have tokens : split "_MORROW/ACK" = ["_MORROW", "ACK"] := by decide
  have front : "_MORROW/ACK/" ++ consumerId = "_MORROW/ACK" ++ "/" ++ consumerId := rfl
  have shape := congrArg (· ++ "/" ++ decimal seq ++ "/" ++ decimal deliveryId) front
  rw [← tokens, ← split_lease]
  exact congrArg split shape

/-- An acknowledgement subject can be taken apart if its consumer's id is one token. -/
theorem parseAckSubject_ackSubject {consumerId : String} {seq deliveryId : ℕ}
    (small : seq ≤ u64Max) (smallId : deliveryId ≤ u64Max) :
    parseAckSubject (ackSubject consumerId seq deliveryId) =
      if '/' ∈ consumerId.toList then none else some ⟨consumerId, seq, deliveryId⟩ := by
  by_cases slash : '/' ∈ consumerId.toList
  · rewrite [if_pos slash, parseAckSubject, split_ackSubject]
    match tokens : split consumerId with
    | [] => exact absurd tokens (split_ne_nil _)
    | [token] => exact absurd slash (slash_notMem_of_split tokens).2
    | first :: second :: others =>
      split
      · rename_i shape
        have longer := congrArg List.length shape
        simp at longer
      · rfl
  · rewrite [if_neg slash, parseAckSubject, split_ackSubject, split_slashless slash]
    simp only [cons_append, nil_append, decimal, parseUnsigned_toString, small, smallId,
      if_true, and_self, guard, pure_bind, Option.bind_eq_bind, Option.bind_some]

/-! ### Frames of pushes -/

variable (message : PublishRecord)

/-- Where in a stream a message is. -/
def placeHeaders : List MessageHeader :=
  match message.stream, message.partition, message.offset with
  | some stream, some partition, some offset =>
    [⟨"Morrow-Stream", stream⟩, ⟨"Morrow-Partition", decimal partition⟩,
      ⟨"Morrow-Offset", decimal offset⟩]
  | _, _, _ => []

/-- The headers that the broker adds from the second version of the protocol on. -/
def addedHeaders (ackSubject : String) (attempt deadlineMs : ℕ) :
    List MessageHeader :=
  [⟨"Morrow-Ack", ackSubject⟩] ++
    (message.key.map fun key => ⟨"Morrow-Key-Hex", hex key⟩).toList ++
    [⟨"Morrow-Timestamp", decimal message.timestampMs⟩] ++ placeHeaders message ++
    [⟨"Morrow-Attempt", decimal attempt⟩, ⟨"Morrow-Lease-Deadline", decimal deadlineMs⟩]

def durableMessageFrame (sid ackSubject : String)
    (attempt deadlineMs protocolVersion : ℕ) : Bytes :=
  if 2 ≤ protocolVersion then
    hmsg message.subject sid message.replyTo
      (message.headers ++ addedHeaders message ackSubject attempt deadlineMs) message.payload
  else if message.headers = [] ∧ message.replyTo = none then
    msg message.subject sid (some ackSubject) message.payload
  else
    hmsg message.subject sid message.replyTo (message.headers ++ [⟨"Morrow-Ack", ackSubject⟩])
      message.payload

/-- What a delivery says about its message. -/
structure Metadata where
  ackSubject : Option String
  key : Option Bytes
  timestampMs : Option ℕ

def ClientFrame.Message.metadata (message : Message) : Metadata :=
  ⟨message.ackSubject, message.key, message.timestampMs⟩

/-! ### Headers of the publisher and of the broker -/

theorem headerValue_append (headers added : List MessageHeader) (name : String) :
    headerValue (headers ++ added) name =
      (headerValue headers name).or (headerValue added name) := by
  rw [headerValue, List.find?_append, headerValue]
  cases headers.find? fun header => eqIgnoreAsciiCase header.name name with
  | none => rfl
  | some header => rfl

theorem headerValue_cons (given value : String) (headers : List MessageHeader) (name : String) :
    headerValue (⟨given, value⟩ :: headers) name =
      if eqIgnoreAsciiCase given name then some value else headerValue headers name := by
  rw [headerValue, List.find?_cons]
  cases eqIgnoreAsciiCase given name with
  | true => rfl
  | false => rfl

/-- Every value that the publisher gave for a name is the one that the broker gives. -/
def Unforged {α : Type} (read : String → Outcome α) (name : String)
    (headers : List MessageHeader) (own : Option α) : Prop :=
  ∀ value ∈ headerValue headers name, some <$> read value = .ok own

variable {name : String}

theorem unforged_iff {α : Type} {read : String → Outcome α} {added : List MessageHeader}
    {own : Option α} (written : optional read (headerValue added name) = .ok own)
    (headers : List MessageHeader) :
    optional read (headerValue (headers ++ added) name) = .ok own ↔
      Unforged read name headers own := by
  rw [headerValue_append, Unforged]
  cases headerValue headers name with
  | none =>
    constructor
    · exact fun _ value member => nomatch member
    · exact fun _ => written
  | some given =>
    constructor
    · intro same value member
      obtain rfl := Option.mem_some.mp member
      exact same
    · exact fun unforged => unforged given rfl

/-- The publisher's headers do not stand in for those that the broker gives. -/
structure Metadata.Unforged (headers : List MessageHeader) (own : Metadata) : Prop where
  ack : Morrow.Unforged .ok "Morrow-Ack" headers own.ackSubject
  key : Morrow.Unforged (decodeHex · "Morrow-Key-Hex") "Morrow-Key-Hex" headers own.key
  timestampMs : Morrow.Unforged (parseNumber u64Max · "Morrow-Timestamp") "Morrow-Timestamp" headers
    own.timestampMs

/-- The headers that are added give the metadata. -/
structure Metadata.Written (added : List MessageHeader) (own : Metadata) : Prop where
  ack : headerValue added "Morrow-Ack" = own.ackSubject
  key : headerValue added "Morrow-Key-Hex" = own.key.map hex
  timestampMs : headerValue added "Morrow-Timestamp" = own.timestampMs.map decimal
  bounded : ∀ timestampMs ∈ own.timestampMs, timestampMs ≤ u64Max

theorem optional_map {α : Type} {read : String → Outcome α} {write : α → String} {own : Option α}
    (reads : ∀ value ∈ own, read (write value) = .ok value) :
    optional read (own.map write) = .ok own := by
  cases own with
  | none => rfl
  | some value =>
    change some <$> read (write value) = _
    rw [reads value rfl]
    rfl

theorem optional_ok (value : Option String) : optional .ok value = .ok value := by
  cases value with
  | none => rfl
  | some value => rfl

theorem headedMessage_metadata {headers added : List MessageHeader} {own : Metadata}
    (written : own.Written added) (subject sid : String) (replyTo : Option String)
    (payload : Bytes) :
    (∃ message, headedMessage subject sid replyTo (headers ++ added) payload = .ok message ∧
        message.metadata = own) ↔ own.Unforged headers := by
  have ack : optional .ok (headerValue added "Morrow-Ack") = .ok own.ackSubject := by
    rw [optional_ok, written.ack]
  have key : optional (decodeHex · "Morrow-Key-Hex") (headerValue added "Morrow-Key-Hex") =
      .ok own.key := by
    rw [written.key]
    exact optional_map fun value _ => decodeHex_hex value _
  have timestampMs : optional (parseNumber u64Max · "Morrow-Timestamp")
      (headerValue added "Morrow-Timestamp") = .ok own.timestampMs := by
    rw [written.timestampMs]
    exact optional_map fun value member =>
      parseNumber_decimal.mpr ⟨written.bounded value member, rfl⟩
  constructor
  · rintro ⟨message, headed, rfl⟩
    obtain ⟨read, time, decoded, parsed, rfl⟩ := headedMessage_eq_ok.mp headed
    constructor
    · apply (unforged_iff ack headers).mp
      rw [optional_ok]
      rfl
    · exact (unforged_iff key headers).mp decoded
    · exact (unforged_iff timestampMs headers).mp parsed
  · intro unforged
    have decoded := (unforged_iff key headers).mpr unforged.key
    have parsed := (unforged_iff timestampMs headers).mpr unforged.timestampMs
    have given := (unforged_iff ack headers).mpr unforged.ack
    rw [optional_ok] at given
    refine ⟨_, headedMessage_eq_ok.mpr ⟨_, _, decoded, parsed, rfl⟩, ?_⟩
    rw [Message.metadata, Except.ok.inj given]

/-! ### Pushes -/

variable {value : String}

theorem clean_of_plain (word : IsWord name) (colon : ':' ∉ name.toList)
    (plain : ∀ symbol ∈ value.toList, Text.isWhitespace symbol = false) :
    Clean ⟨name, value⟩ where
  colon := colon
  name := trimmed_of_plain word.2
  value := trimmed_of_plain plain
  nameInLine := inLine_of_plain word.2
  valueInLine := inLine_of_plain plain

theorem clean_decimal (word : IsWord name) (colon : ':' ∉ name.toList) (value : ℕ) :
    Clean ⟨name, decimal value⟩ :=
  clean_of_plain word colon (isWord_toString value).2

theorem written_addedHeaders {message : PublishRecord} (bounded : message.timestampMs ≤ u64Max)
    (ackSubject : String) (attempt deadlineMs : ℕ) :
    Metadata.Written (addedHeaders message ackSubject attempt deadlineMs)
      ⟨some ackSubject, message.key, some message.timestampMs⟩ where
  ack := by
    rw [addedHeaders]
    simp +decide only [cons_append, headerValue_cons, if_true]
  key := by
    have elsewhere : headerValue (placeHeaders message) "Morrow-Key-Hex" = none := by
      unfold placeHeaders
      split
      · simp +decide only [headerValue_cons, if_false]
      · rfl
    cases stored : message.key with
    | none =>
      simp +decide only [addedHeaders, stored, Option.map_none, Option.toList_none, cons_append,
        nil_append, headerValue_cons, headerValue_append, elsewhere, if_false]
    | some key =>
      simp +decide only [addedHeaders, stored, Option.map_some, Option.toList_some,
        cons_append, nil_append, headerValue_cons, if_false, if_true]
  timestampMs := by
    cases stored : message.key with
    | none =>
      simp +decide only [addedHeaders, stored, Option.map_none, Option.map_some, Option.toList_none,
        cons_append, nil_append, headerValue_cons, if_false, if_true]
    | some key =>
      simp +decide only [addedHeaders, stored, Option.map_some, Option.toList_some,
        cons_append, nil_append, headerValue_cons, if_false, if_true]
  bounded := by
    rintro _ ⟨⟩
    exact bounded

/-- No name that the consumer's id is made of has a slash. -/
def Subscription.Slashless (subscription : Subscription) : Prop :=
  match subscription.queue with
  | some queue => '/' ∉ queue.toList
  | none => '/' ∉ subscription.durableId.toList ∧ '/' ∉ subscription.sid.toList

theorem isWord_of_validateIdentifier (valid : validateIdentifier name value = .ok ()) :
    IsWord value := by
  obtain ⟨nonempty, -, plain, -⟩ := ensure_eq_ok.mp valid
  exact ⟨nonempty, (by simpa using any_eq_false.mp plain)⟩

namespace Subscription

variable {subscription : Subscription}

theorem isWord_consumerId (accepted : subscription.Accepted) : IsWord subscription.consumerId := by
  have dash : IsWord "-" := by decide
  unfold consumerId Morrow.consumerId
  cases named : subscription.queue with
  | none =>
    have front : IsWord "durable-" := by decide
    have identity := isWord_of_validateIdentifier accepted.durableId
    exact ((front.append_left identity.2).append_left dash.2).append_left
      (isWord_of_validateIdentifier accepted.sid).2
  | some queue =>
    have front : IsWord "queue-" := by decide
    have word := isWord_of_validateIdentifier (accepted.queue queue named)
    exact ((front.append_left word.2).append_left dash.2).append_left
      fun symbol member => (plain_hex _ symbol member).1

theorem slash_notMem_consumerId_iff :
    '/' ∉ subscription.consumerId.toList ↔ subscription.Slashless := by
  unfold consumerId Morrow.consumerId Slashless
  cases subscription.queue with
  | none => simp
  | some queue =>
    have digits : '/' ∉ (hex (utf8 subscription.subject)).toList :=
      fun member => (plain_hex _ _ member).2 rfl
    simp [digits]

end Subscription

/-- The delivery of a message to a member of a subscription's consumer. -/
structure Push where
  subscription : Subscription
  message : PublishRecord
  seq : ℕ
  deliveryId : ℕ
  attempt : ℕ
  deadlineMs : ℕ
  protocolVersion : ℕ

namespace Push

variable (push : Push)

def ackSubject : String :=
  Morrow.ackSubject push.subscription.consumerId push.seq push.deliveryId

def frame : Bytes :=
  durableMessageFrame push.message push.subscription.sid push.ackSubject push.attempt
    push.deadlineMs push.protocolVersion

/-- The headers that the broker adds to those of the publisher. -/
def added : List MessageHeader :=
  if 2 ≤ push.protocolVersion then
    addedHeaders push.message push.ackSubject push.attempt push.deadlineMs
  else [⟨"Morrow-Ack", push.ackSubject⟩]

/-- What the broker puts in the delivery. -/
def metadata : Metadata :=
  if 2 ≤ push.protocolVersion then
    ⟨some push.ackSubject, push.message.key, some push.message.timestampMs⟩
  else ⟨some push.ackSubject, none, none⟩

/-- A delivery without headers. -/
def Plain : Prop :=
  ¬ 2 ≤ push.protocolVersion ∧ push.message.headers = [] ∧ push.message.replyTo = none

/-- The client reads what the broker put in, and the acknowledgement subject names the
lease. -/
def Faithful (maxPayload : ℕ) (push : Push) : Prop :=
  ∀ rest, ∃ message,
    readFrame maxPayload (push.frame ++ rest) = .ok (some (.message message, rest)) ∧
      message.metadata = push.metadata ∧
      message.ackSubject.bind parseAckSubject =
        some ⟨push.subscription.consumerId, push.seq, push.deliveryId⟩

/-- The conditions under which a delivery is read as it was meant. -/
structure Safe (maxPayload : ℕ) (push : Push) : Prop where
  slashless : push.subscription.Slashless
  fits : push.Plain ∨
    (utf8 (headerBlock (push.message.headers ++ push.added))).length +
      push.message.payload.length ≤ maxPayload
  unforged : push.metadata.Unforged push.message.headers

/-- The names and numbers are ones that the broker can have. -/
structure Admitted (push : Push) : Prop where
  names : push.subscription.Accepted
  stream : ∀ stream ∈ push.message.stream, IsWord stream
  timestampMs : push.message.timestampMs ≤ u64Max
  seq : push.seq ≤ u64Max
  deliveryId : push.deliveryId ≤ u64Max

variable {push : Push}

theorem isWord_ackSubject (admitted : push.Admitted) : IsWord push.ackSubject := by
  have front : IsWord "_MORROW/ACK/" := by decide
  have slash : IsWord "/" := by decide
  exact ((((front.append_left (Subscription.isWord_consumerId admitted.names).2).append_left
    slash.2).append_left (isWord_toString _).2).append_left slash.2).append_left
      (isWord_toString _).2

theorem clean_added (admitted : push.Admitted) : ∀ header ∈ push.added, Clean header := by
  have ack : Clean ⟨"Morrow-Ack", push.ackSubject⟩ :=
    clean_of_plain (by decide) (by decide) (isWord_ackSubject admitted).2
  unfold added
  split
  · have place : ∀ header ∈ placeHeaders push.message, Clean header := by
      unfold placeHeaders
      split
      · rename_i stream partition offset placed _ _
        have word := admitted.stream stream placed
        simp only [forall_mem_cons, not_mem_nil, false_implies, implies_true, and_true]
        exact ⟨clean_of_plain (by decide) (by decide) word.2,
          clean_decimal (by decide) (by decide) _,
          clean_decimal (by decide) (by decide) _⟩
      · exact forall_mem_nil _
    have key : ∀ header ∈ (push.message.key.map fun key =>
        (⟨"Morrow-Key-Hex", hex key⟩ : MessageHeader)).toList, Clean header := by
      intro header member
      obtain ⟨key, -, rfl⟩ := Option.map_eq_some_iff.mp (Option.mem_toList.mp member)
      exact clean_of_plain (by decide) (by decide) fun symbol among => (plain_hex _ symbol among).1
    simp only [addedHeaders, forall_mem_append, forall_mem_cons, not_mem_nil,
      false_implies, implies_true, and_true]
    exact ⟨⟨⟨⟨ack, key⟩, clean_decimal (by decide) (by decide) _⟩, place⟩,
      clean_decimal (by decide) (by decide) _, clean_decimal (by decide) (by decide) _⟩
  · simp only [forall_mem_cons, not_mem_nil, false_implies, implies_true, and_true]
    exact ack

theorem written_added (admitted : push.Admitted) : push.metadata.Written push.added := by
  by_cases detailed : 2 ≤ push.protocolVersion
  · rw [metadata, added, if_pos detailed, if_pos detailed]
    exact written_addedHeaders admitted.timestampMs _ _ _
  · rw [metadata, added, if_neg detailed, if_neg detailed]
    constructor
    · simp +decide only [headerValue_cons, if_true]
    · simp +decide only [headerValue_cons, if_false]
    · simp +decide only [headerValue_cons, if_false]
    · exact fun _ member => nomatch member

theorem frame_headed (headed : ¬ push.Plain) :
    push.frame = hmsg push.message.subject push.subscription.sid push.message.replyTo
      (push.message.headers ++ push.added) push.message.payload := by
  rw [frame, durableMessageFrame, added]
  by_cases detailed : 2 ≤ push.protocolVersion
  · rw [if_pos detailed, if_pos detailed]
  · rw [if_neg detailed, if_neg detailed, if_neg fun plain => headed ⟨detailed, plain⟩]

theorem parse_ackSubject_iff (admitted : push.Admitted) :
    parseAckSubject push.ackSubject =
        some ⟨push.subscription.consumerId, push.seq, push.deliveryId⟩ ↔
      push.subscription.Slashless := by
  rw [← Subscription.slash_notMem_consumerId_iff, ackSubject,
    parseAckSubject_ackSubject admitted.seq admitted.deliveryId]
  by_cases slash : '/' ∈ push.subscription.consumerId.toList
  · simp [slash]
  · simp [slash]

theorem metadata_ackSubject (push : Push) : push.metadata.ackSubject = some push.ackSubject := by
  rw [metadata]
  split <;> rfl

theorem faithful_plain_iff {maxPayload : ℕ} (bounded : maxPayload ≤ u64Max)
    (accepted : Accepted maxPayload push.message.subject push.message.replyTo push.message.headers
      push.message.payload) (admitted : push.Admitted) (plain : push.Plain) :
    push.Faithful maxPayload ↔ push.subscription.Slashless := by
  have sidWord := isWord_of_validateIdentifier admitted.names.sid
  have replyWord : ∀ reply ∈ some push.ackSubject, IsWord reply := by
    rintro _ ⟨⟩
    exact isWord_ackSubject admitted
  constructor
  · intro faithful
    obtain ⟨message, -, same, parsed⟩ := faithful []
    have given : message.ackSubject = some push.ackSubject :=
      (congrArg Metadata.ackSubject same).trans (metadata_ackSubject push)
    rw [given] at parsed
    exact (parse_ackSubject_iff admitted).mp parsed
  · intro slashless rest
    have parsed := (parse_ackSubject_iff admitted).mpr slashless
    let message := plainMessage push.message.subject push.subscription.sid (some push.ackSubject)
      push.message.payload
    have given : message.ackSubject = some push.ackSubject := by
      simp only [message, plainMessage, Option.bind_some, parsed, Option.isSome_some, if_true]
    refine ⟨message, ?_, ?_, ?_⟩
    · rw [frame, durableMessageFrame, if_neg plain.1, if_pos plain.2]
      exact (readFrame_msg bounded accepted.subjectWord sidWord replyWord).mpr
        ⟨accepted.payloadFits, rfl⟩
    · rw [metadata, if_neg plain.1, Message.metadata, given]
      rfl
    · rw [given]
      exact parsed

theorem faithful_headed_iff {maxPayload : ℕ} (bounded : maxPayload ≤ u64Max)
    (accepted : Accepted maxPayload push.message.subject push.message.replyTo push.message.headers
      push.message.payload) (admitted : push.Admitted) (headed : ¬ push.Plain) :
    push.Faithful maxPayload ↔
      (utf8 (headerBlock (push.message.headers ++ push.added))).length +
          push.message.payload.length ≤ maxPayload ∧
        push.metadata.Unforged push.message.headers ∧ push.subscription.Slashless := by
  have sidWord := isWord_of_validateIdentifier admitted.names.sid
  have clean : ∀ header ∈ push.message.headers ++ push.added, Clean header := by
    intro header member
    rcases mem_append.mp member with given | own
    · exact accepted.clean header given
    · exact clean_added admitted header own
  rw [← headedMessage_metadata (written_added admitted) push.message.subject push.subscription.sid
    push.message.replyTo push.message.payload, ← parse_ackSubject_iff admitted]
  constructor
  · intro faithful
    obtain ⟨message, read, same, parsed⟩ := faithful []
    have given : message.ackSubject = some push.ackSubject :=
      (congrArg Metadata.ackSubject same).trans (metadata_ackSubject push)
    rw [given] at parsed
    rw [frame_headed headed] at read
    obtain ⟨fits, found, made, frame⟩ :=
      (readFrame_hmsg bounded accepted.subjectWord sidWord accepted.replyWord clean).mp read
    obtain rfl := ServerFrame.message.inj (Prod.mk.inj frame).1
    exact ⟨fits, ⟨message, made, same⟩, parsed⟩
  · rintro ⟨fits, ⟨message, made, same⟩, parsed⟩ rest
    have given : message.ackSubject = some push.ackSubject :=
      (congrArg Metadata.ackSubject same).trans (metadata_ackSubject push)
    refine ⟨message, ?_, same, ?_⟩
    · rw [frame_headed headed]
      exact (readFrame_hmsg bounded accepted.subjectWord sidWord accepted.replyWord clean).mpr
        ⟨fits, message, made, rfl⟩
    · rw [given]
      exact parsed

/-- The client reads from a push what the broker put in exactly if the push is safe. -/
theorem faithful_iff_safe {maxPayload maxControlLine : ℕ} {input left : Bytes} {subject : String}
    {replyTo : Option String} {headers : List MessageHeader} {key : Option Bytes} {payload : Bytes}
    {ack : Option AckRequest} (bounded : maxPayload ≤ u64Max)
    (read : readCommand maxPayload maxControlLine input =
      .ok (some (.pub subject replyTo headers key payload ack, left)))
    (published : push.message.publication = ⟨subject, replyTo, headers, key, payload⟩)
    (admitted : push.Admitted) : push.Faithful maxPayload ↔ push.Safe maxPayload := by
  have accepted := accepted_of_readCommand read
  obtain ⟨rfl, rfl, rfl, rfl, rfl⟩ := Publication.mk.inj published
  by_cases plain : push.Plain
  · rw [faithful_plain_iff bounded accepted admitted plain]
    constructor
    · intro slashless
      refine ⟨slashless, .inl plain, ?_⟩
      rw [plain.2.1]
      constructor
      · exact fun _ member => nomatch member
      · exact fun _ member => nomatch member
      · exact fun _ member => nomatch member
    · exact fun safe => safe.slashless
  · rw [faithful_headed_iff bounded accepted admitted plain]
    constructor
    · rintro ⟨fits, unforged, slashless⟩
      exact ⟨slashless, .inr fits, unforged⟩
    · intro safe
      exact ⟨safe.fits.resolve_left plain, safe.unforged, safe.slashless⟩

/-- The push of a message of five bytes to a subscription. -/
def greetingTo (sid : String) (headers : List MessageHeader) : Push where
  subscription := ⟨"app", none, "a", sid⟩
  message := { Publication.greeting with headers := headers }
  seq := 1
  deliveryId := 1
  attempt := 1
  deadlineMs := 30
  protocolVersion := 2

theorem admitted_greetingTo {sid : String} (valid : validateIdentifier "sid" sid = .ok ())
    (headers : List MessageHeader) : (greetingTo sid headers).Admitted where
  names := by
    constructor
    · change validateIdentifier "durable_id" "app" = .ok ()
      exact ensure_of (by decide)
    · intro queue named
      exact nomatch named
    · change validateSubscription "a" = true
      decide
    · exact valid
  stream := by
    rintro _ ⟨⟩
    decide
  timestampMs := by
    change 7 ≤ u64Max
    decide
  seq := by
    change 1 ≤ u64Max
    decide
  deliveryId := by
    change 1 ≤ u64Max
    decide

/-- A push with a header of the publisher is read as it was meant. -/
theorem greeting_faithful : (greetingTo "1" [⟨"Trace", "x"⟩]).Faithful 1024 := by
  have read : readCommand 1024 1024
      (utf8 "HPUB a 24 29\r\nMORROW/1.0\r\nTrace: x\r\n\r\nhello\r\n") =
    .ok (some (.pub "a" none [⟨"Trace", "x"⟩] none (utf8 "hello") none, [])) := by rfl
  have valid : validateIdentifier "sid" "1" = .ok () := ensure_of (by decide)
  apply (faithful_iff_safe (by decide) read rfl (admitted_greetingTo valid _)).mpr
  constructor
  · change '/' ∉ "app".toList ∧ '/' ∉ "1".toList
    decide
  · right
    decide +kernel
  · constructor <;> exact fun _ member => nomatch member

theorem greetingTo_not_faithful {input : Bytes} {sid : String} {headers : List MessageHeader}
    (read : readCommand 1024 1024 input =
      .ok (some (.pub "a" none headers none (utf8 "hello") none, [])))
    (valid : validateIdentifier "sid" sid = .ok ()) (headed : ¬ (greetingTo sid headers).Plain)
    (forged : (greetingTo sid headers).metadata.Unforged headers →
      ¬ (greetingTo sid headers).subscription.Slashless) :
    readCommand 1024 1024 input =
        .ok (some (.pub "a" none headers none (utf8 "hello") none, [])) ∧
      (greetingTo sid headers).Admitted ∧ ¬ (greetingTo sid headers).Faithful 1024 := by
  have admitted := admitted_greetingTo valid headers
  refine ⟨read, admitted, fun faithful => ?_⟩
  have accepted := accepted_of_readCommand read
  obtain ⟨-, unforged, slashless⟩ :=
    (faithful_headed_iff (by decide) accepted admitted headed).mp faithful
  exact forged unforged slashless

/-- A publisher's acknowledgement subject is taken for the broker's, and a slash in a
subscription id makes the broker's one unreadable. -/
theorem greeting_forged :
    (readCommand 1024 1024 (utf8 "HPUB a 29 34\r\nMORROW/1.0\r\nMorrow-Ack: x\r\n\r\nhello\r\n") =
        .ok (some (.pub "a" none [⟨"Morrow-Ack", "x"⟩] none (utf8 "hello") none, [])) ∧
      (greetingTo "1" [⟨"Morrow-Ack", "x"⟩]).Admitted ∧
      ¬ (greetingTo "1" [⟨"Morrow-Ack", "x"⟩]).Faithful 1024) ∧
    (readCommand 1024 1024 (utf8 "PUB a 5\r\nhello\r\n") =
        .ok (some (.pub "a" none [] none (utf8 "hello") none, [])) ∧
      (greetingTo "1/2" []).Admitted ∧ ¬ (greetingTo "1/2" []).Faithful 1024) := by
  constructor
  · refine greetingTo_not_faithful (by rfl) (ensure_of (by decide))
      (fun plain => plain.1 (by decide))
      fun unforged => ?_
    have taken := Except.ok.inj (unforged.ack "x" (by decide))
    exact absurd taken (by decide)
  · exact greetingTo_not_faithful (by rfl) (ensure_of (by decide))
      (fun plain => plain.1 (by decide))
      fun _ slashless => slashless.2 (by decide)

end Push

end Morrow
