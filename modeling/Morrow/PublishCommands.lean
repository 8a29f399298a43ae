import Morrow.DurablePublish
import Morrow.HeaderBlocks

/-!
# Publish commands

A command is a line of words. A publish has its payload after the line, and before the
payload a block of headers if it is an `HPUB`. A few headers are for the broker and are
taken out; all others are the publisher's own and are passed on.
-/

namespace Morrow.Protocol

open ByteCodec Text List Except

/-! ### Lines and bodies -/

def crlf : Bytes := [13, 10]

/-- `read_until` a line feed: what is read, and what is left. -/
def readUntilNewline (input : Bytes) : Bytes × Bytes :=
  (input.takeWhile (· ≠ 10) ++ (input.dropWhile (· ≠ 10)).take 1, (input.dropWhile (· ≠ 10)).drop 1)

/-- `trim_crlf` of the protocol and of the client, which differ in the message. -/
def trimCrlf (missing : String) (line : Bytes) : Outcome Bytes :=
  if crlf.isSuffixOf line then .ok (line.take (line.length - 2))
  else if [(10 : UInt8)].isSuffixOf line then .ok (line.take (line.length - 1))
  else .error (.error missing)

/-- A line end comes after the bytes of a body. -/
def readBody (short unended : String) (size : ℕ) (input : Bytes) : Outcome (Bytes × Bytes) := do
  let body ← (take (Failure.error short) (size + 2)).run input
  ensure (body.1.drop size = crlf) unended
  .ok (body.1.take size, body.2)

def parseLen (field value : String) : Outcome ℕ :=
  okOr (field ++ " must be an integer") (parseUnsigned u64Max value)

/-- The bytes of the headers and of the payload, and what is left. -/
def readHeaded (frame short : String) (maxPayload headersLen totalLen : ℕ) (input : Bytes) :
    Outcome ((Bytes × Bytes) × Bytes) := do
  ensure (headersLen ≤ totalLen) (frame ++ " headers length exceeds total frame length")
  ensure (totalLen ≤ maxPayload) (frame ++ " total length " ++ decimal totalLen ++
    " exceeds max payload " ++ decimal maxPayload)
  let body ← readBody short (frame ++ " payload must be followed by CRLF") totalLen input
  .ok ((body.1.take headersLen, body.1.drop headersLen), body.2)

/-- What is written is read. -/
theorem readUntilNewline_line {text : String} (line : '\n' ∉ text.toList) (rest : Bytes) :
    readUntilNewline (utf8 text ++ crlf ++ rest) = (utf8 text ++ crlf, rest) := by
  have kept : ∀ byte ∈ utf8 text ++ [13], decide (byte ≠ 10) = true := by
    intro byte member
    apply decide_eq_true
    rintro rfl
    rcases mem_append.mp member with inside | last
    · exact line (lineFeed_of_mem_utf8 inside)
    · cases mem_singleton.mp last
  have shape : utf8 text ++ crlf ++ rest = (utf8 text ++ [13]) ++ 10 :: rest := by simp [crlf]
  have taken : (utf8 text ++ crlf ++ rest).takeWhile (· ≠ 10) = utf8 text ++ [13] := by
    rw [shape, takeWhile_append_of_pos kept, takeWhile_cons_of_neg (by decide),
      append_nil]
  have dropped : (utf8 text ++ crlf ++ rest).dropWhile (· ≠ 10) = 10 :: rest := by
    rw [shape, dropWhile_append_of_pos kept, dropWhile_cons_of_neg (by decide)]
  rw [readUntilNewline, taken, dropped]
  simp [crlf]

theorem trimCrlf_line (missing : String) (line : Bytes) :
    trimCrlf missing (line ++ crlf) = .ok line := by
  rw [trimCrlf]
  simp [crlf]

theorem readBody_ended (short unended : String) (body rest : Bytes) :
    readBody short unended body.length (body ++ crlf ++ rest) = .ok (body, rest) := by
  have taken := Reads.take (Failure.error short) (body ++ crlf) rest
  have length : (body ++ crlf).length = body.length + 2 := by simp [crlf]
  rw [length] at taken
  rw [readBody, taken, ok_bind, drop_left, ensure_of rfl, ok_bind, take_left]

/-- A body whose lengths are right is read if it is not too long. -/
theorem readHeaded_eq_ok (frame short : String) (maxPayload : ℕ) (block payload rest : Bytes)
    {read : (Bytes × Bytes) × Bytes} :
    readHeaded frame short maxPayload block.length (block.length + payload.length)
        (block ++ payload ++ crlf ++ rest) = .ok read ↔
      block.length + payload.length ≤ maxPayload ∧ read = ((block, payload), rest) := by
  have body : readBody short (frame ++ " payload must be followed by CRLF")
      (block.length + payload.length) (block ++ payload ++ crlf ++ rest) =
        .ok (block ++ payload, rest) := by
    rw [← length_append]
    exact readBody_ended _ _ _ _
  rw [readHeaded, ensure_of (Nat.le_add_right _ _), body]
  simp only [ok_bind, take_left, drop_left]
  constructor
  · intro accepted
    obtain ⟨_, fits, same⟩ := bind_eq_ok.mp accepted
    exact ⟨ensure_eq_ok.mp fits, (ok.inj same).symm⟩
  · rintro ⟨fits, rfl⟩
    rw [ensure_of fits, ok_bind]

theorem okOr_decimal {message : String} {largest value read : ℕ} :
    okOr message (parseUnsigned largest (decimal value)) = .ok read ↔
      value ≤ largest ∧ read = value := by
  rw [decimal, parseUnsigned_toString, okOr_eq_ok]
  split
  · rename_i small
    simp only [Option.some.injEq, small, true_and, eq_comm]
  · rename_i large
    simp only [reduceCtorEq, large, false_and]

theorem parseLen_decimal {field : String} {value read : ℕ} :
    parseLen field (decimal value) = .ok read ↔ value ≤ u64Max ∧ read = value := okOr_decimal

/-! ### Commands -/

/-- The acknowledgement that the headers of a publish ask for. -/
structure AckRequest where
  level : AckLevel
  msgId : String
  producer : Option ProducerSequence

/-- A publish, or one of the other commands. -/
inductive Command
  | pub (subject : String) (replyTo : Option String) (headers : List MessageHeader)
    (key : Option Bytes) (payload : Bytes) (ack : Option AckRequest)
  | other (operation : String) (parts : List String)

def AckLevel.parse (value : String) : Outcome AckLevel :=
  if value = "0" then .ok .accepted
  else if value = "1" then .ok .durable
  else if value = "2" then .ok .highDurability
  else if value = "3" then .ok .clusterDurable
  else .error (.error "Morrow-QoS must be 0, 1, 2, or 3")

/-- `validate_msg_id` and `validate_producer_id`, which differ in the name of the header. -/
def validateId (header value : String) : Outcome Unit :=
  ensure (value ≠ "" ∧ (utf8 value).length ≤ 128 ∧ value.toList.any Text.isWhitespace = false)
    (header ++ " must be non-empty, at most 128 bytes, and contain no whitespace")

/-- The three headers of a producer, or none of them. -/
def parseProducer : Option String → Option String → Option String →
    Outcome (Option ProducerSequence)
  | none, none, none => .ok none
  | some producerId, some epoch, some sequence => do
    validateId "Morrow-Producer-Id" producerId
    let epoch ← parseLen "Morrow-Producer-Epoch" epoch
    let sequence ← parseLen "Morrow-Producer-Sequence" sequence
    .ok (some ⟨producerId, epoch, sequence⟩)
  | _, _, _ =>
    .error (.error "producer identity, epoch, and sequence must be supplied together")

def parseProducerAckRequest (headers : List MessageHeader) : Outcome (Option AckRequest) :=
  match headerValue headers "Morrow-QoS" with
  | none => .ok none
  | some level => do
    let level ← AckLevel.parse level
    let msgId ← okOr "Morrow-Msg-Id is required when Morrow-QoS is set"
      (headerValue headers "Morrow-Msg-Id")
    validateId "Morrow-Msg-Id" msgId
    let producer ← parseProducer (headerValue headers "Morrow-Producer-Id")
      (headerValue headers "Morrow-Producer-Epoch")
      (headerValue headers "Morrow-Producer-Sequence")
    .ok (some ⟨level, msgId, producer⟩)

variable (maxPayload : ℕ)

/-- The body of a `PUB` whose words were read. -/
def readPubBody (subject : String) (replyTo : Option String) (size : String)
    (input : Bytes) : Outcome (Command × Bytes) := do
  let size ← parseLen "PUB payload size" size
  ensure (size ≤ maxPayload) ("payload size " ++ decimal size ++ " exceeds max payload " ++
    decimal maxPayload)
  let body ← readBody "failed to read PUB payload: early eof"
    "PUB payload must be followed by CRLF" size input
  .ok (.pub subject replyTo [] none body.1 none, body.2)

def readPub (parts : List String) (input : Bytes) : Outcome (Command × Bytes) :=
  match parts with
  | [] => .error (.error "PUB requires a subject")
  | [_] => .error (.error "PUB requires a payload size")
  | [subject, size] => readPubBody maxPayload subject none size input
  | [subject, replyTo, size] => readPubBody maxPayload subject (some replyTo) size input
  | _ => .error (.error "PUB has too many arguments")

/-- A header that is for the broker. -/
def isBrokerHeader (header : MessageHeader) : Bool :=
  eqIgnoreAsciiCase header.name "Morrow-QoS" || eqIgnoreAsciiCase header.name "Morrow-Msg-Id" ||
    eqIgnoreAsciiCase header.name "Morrow-Key"

/-- The body of an `HPUB` whose words were read. -/
def readHpubBody (subject : String) (replyTo : Option String)
    (headersLen totalLen : String) (input : Bytes) : Outcome (Command × Bytes) := do
  let headersLen ← parseLen "HPUB headers length" headersLen
  let totalLen ← parseLen "HPUB total length" totalLen
  let body ← readHeaded "HPUB" "failed to read HPUB payload: early eof" maxPayload headersLen
    totalLen input
  let headers ← parseHeaders "HPUB" body.1.1
  let ack ← parseProducerAckRequest headers
  let key := (headerValue headers "Morrow-Key").map utf8
  .ok (.pub subject replyTo (headers.filter fun header => !isBrokerHeader header) key body.1.2 ack,
    body.2)

def readHpub (parts : List String) (input : Bytes) : Outcome (Command × Bytes) :=
  match parts with
  | [] => .error (.error "HPUB requires a subject")
  | [_] => .error (.error "HPUB requires a headers length")
  | [_, _] => .error (.error "HPUB requires a total length")
  | [subject, headersLen, totalLen] =>
    readHpubBody maxPayload subject none headersLen totalLen input
  | [subject, replyTo, headersLen, totalLen] =>
    readHpubBody maxPayload subject (some replyTo) headersLen totalLen input
  | _ => .error (.error "HPUB has too many arguments")

/-- The operation of a command, in any case of its letters. -/
def canonicalOperation (operation : String) : Option String :=
  ["CONN", "PING", "PONG", "SUB", "UNSUB", "CONSUMER", "FETCH", "ACK", "NACK", "EXTEND",
    "CREDIT", "GROUP", "PUB", "HPUB"].find? fun candidate => eqIgnoreAsciiCase operation candidate

/-- The line of a command, or nothing at the end of the input. -/
def readControlLine (maxControlLine : ℕ) (input : Bytes) : Outcome (Option (Bytes × Bytes)) :=
  if input = [] then .ok none
  else do
    let read := readUntilNewline input
    ensure (read.1.length ≤ maxControlLine)
      ("protocol line exceeds max_control_line " ++ decimal maxControlLine)
    let line ← trimCrlf "protocol line missing newline" read.1
    .ok (some (line, read.2))

/-- The operation and the other words of a line. -/
def commandWords (line : Bytes) : Outcome (String × List String) := do
  let text ← okOr "protocol line is not UTF-8" (fromUtf8 line)
  match splitWhitespace text with
  | [] => .error (.error "empty protocol line")
  | operation :: parts => .ok (operation, parts)

/-- `read_command`; commands that are not publishes are left as they are. -/
def readCommand (maxPayload maxControlLine : ℕ) (input : Bytes) :
    Outcome (Option (Command × Bytes)) := do
  let read ← readControlLine maxControlLine input
  match read with
  | none => .ok none
  | some (line, rest) => do
    let words ← commandWords line
    match canonicalOperation words.1 with
    | some "PUB" => some <$> readPub maxPayload words.2 rest
    | some "HPUB" => some <$> readHpub maxPayload words.2 rest
    | some operation => .ok (some (.other operation words.2, rest))
    | none => .error (.error ("unsupported command " ++ words.1))

/-! ### What is accepted -/

/-- What is known of a publish that was read. -/
structure Accepted (maxPayload : ℕ) (subject : String) (replyTo : Option String)
    (headers : List MessageHeader) (payload : Bytes) : Prop where
  subjectWord : IsWord subject
  replyWord : ∀ reply ∈ replyTo, IsWord reply
  clean : ∀ header ∈ headers, Clean header
  payloadFits : payload.length ≤ maxPayload

variable {maxPayload : ℕ} {subject : String} {replyTo : Option String}
  {headers : List MessageHeader} {key : Option Bytes} {payload : Bytes} {ack : Option AckRequest}

variable {input : Bytes}

theorem length_of_readBody {short unended : String} {size : ℕ} {body : Bytes × Bytes}
    (read : readBody short unended size input = .ok body) :
    body.1.length ≤ size := by
  obtain ⟨taken, -, read⟩ := bind_eq_ok.mp read
  obtain ⟨_, -, same⟩ := bind_eq_ok.mp read
  obtain rfl := ok.inj same
  rw [length_take]
  exact Nat.min_le_left _ _

variable {rest : Bytes}

theorem accepted_of_readPubBody {named : String} {given : Option String} {size : String}
    (word : IsWord named) (replies : ∀ reply ∈ given, IsWord reply)
    (read : readPubBody maxPayload named given size input =
      .ok (.pub subject replyTo headers key payload ack, rest)) :
    Accepted maxPayload subject replyTo headers payload := by
  obtain ⟨length, -, read⟩ := bind_eq_ok.mp read
  obtain ⟨_, fits, read⟩ := bind_eq_ok.mp read
  obtain ⟨body, bodyRead, same⟩ := bind_eq_ok.mp read
  cases ok.inj same
  constructor
  · exact word
  · exact replies
  · exact fun _ member => nomatch member
  · exact (length_of_readBody bodyRead).trans (ensure_eq_ok.mp fits)

theorem accepted_of_readHpubBody {named : String} {given : Option String}
    {headersLen totalLen : String} (word : IsWord named) (replies : ∀ reply ∈ given, IsWord reply)
    (read : readHpubBody maxPayload named given headersLen totalLen input =
      .ok (.pub subject replyTo headers key payload ack, rest)) :
    Accepted maxPayload subject replyTo headers payload := by
  obtain ⟨blockLength, -, read⟩ := bind_eq_ok.mp read
  obtain ⟨length, -, read⟩ := bind_eq_ok.mp read
  obtain ⟨body, headed, read⟩ := bind_eq_ok.mp read
  obtain ⟨found, parsed, read⟩ := bind_eq_ok.mp read
  obtain ⟨_, -, same⟩ := bind_eq_ok.mp read
  cases ok.inj same
  constructor
  · exact word
  · exact replies
  · exact fun header member => clean_of_parseHeaders parsed header (mem_of_mem_filter member)
  · obtain ⟨_, -, headed⟩ := bind_eq_ok.mp headed
    obtain ⟨_, fits, headed⟩ := bind_eq_ok.mp headed
    obtain ⟨whole, wholeRead, split⟩ := bind_eq_ok.mp headed
    obtain rfl := ok.inj split
    rw [length_drop]
    exact (Nat.sub_le _ _).trans ((length_of_readBody wholeRead).trans (ensure_eq_ok.mp fits))

theorem accepted_of_readPub {parts : List String} (words : ∀ word ∈ parts, IsWord word)
    (read : readPub maxPayload parts input =
      .ok (.pub subject replyTo headers key payload ack, rest)) :
    Accepted maxPayload subject replyTo headers payload := by
  unfold readPub at read
  split at read
  · cases read
  · cases read
  · exact accepted_of_readPubBody (words _ (by simp)) (by simp) read
  · refine accepted_of_readPubBody (words _ (by simp)) ?_ read
    rintro reply ⟨⟩
    exact words _ (by simp)
  · cases read

theorem accepted_of_readHpub {parts : List String} (words : ∀ word ∈ parts, IsWord word)
    (read : readHpub maxPayload parts input =
      .ok (.pub subject replyTo headers key payload ack, rest)) :
    Accepted maxPayload subject replyTo headers payload := by
  unfold readHpub at read
  split at read
  · cases read
  · cases read
  · cases read
  · exact accepted_of_readHpubBody (words _ (by simp)) (by simp) read
  · refine accepted_of_readHpubBody (words _ (by simp)) ?_ read
    rintro reply ⟨⟩
    exact words _ (by simp)
  · cases read

theorem map_some_eq_ok {α : Type} {outcome : Outcome α} {value : α} :
    (some <$> outcome : Outcome (Option α)) = .ok (some value) ↔ outcome = .ok value := by
  cases outcome with
  | error failure => exact ⟨(nomatch ·), (nomatch ·)⟩
  | ok found =>
    constructor
    · intro same
      rw [Option.some.inj (ok.inj same)]
    · rintro ⟨⟩
      rfl

theorem isWord_of_commandWords {line : Bytes} {words : String × List String}
    (read : commandWords line = .ok words) : ∀ word ∈ words.2, IsWord word := by
  obtain ⟨text, -, split⟩ := bind_eq_ok.mp read
  split at split
  · cases split
  · rename_i operation parts found
    obtain rfl := ok.inj split
    intro word member
    apply isWord_of_mem_splitWhitespace
    rw [found]
    exact mem_cons_of_mem _ member

/-- The names of a publish that was read are words, its headers can be written, and its
payload is within the limit. -/
theorem accepted_of_readCommand {maxControlLine : ℕ}
    (read : readCommand maxPayload maxControlLine input =
      .ok (some (.pub subject replyTo headers key payload ack, rest))) :
    Accepted maxPayload subject replyTo headers payload := by
  obtain ⟨line, -, read⟩ := bind_eq_ok.mp read
  cases line with
  | none => cases read
  | some line =>
    obtain ⟨words, split, read⟩ := bind_eq_ok.mp read
    have isWord := isWord_of_commandWords split
    split at read
    · exact accepted_of_readPub isWord (map_some_eq_ok.mp read)
    · exact accepted_of_readHpub isWord (map_some_eq_ok.mp read)
    · cases Option.some.inj (ok.inj read)
    · cases read

end Morrow.Protocol
