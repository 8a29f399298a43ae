import Morrow.PublishCommands

/-!
# Frames for the client

The broker writes a delivery as a line of words with the payload after it, and the client
reads it. A message is delivered plain, with headers, or as one of a batch that was
fetched. The acknowledgement subject, the key and the time of a message with headers are
headers themselves, and the client takes the first of each name.
-/

namespace Morrow

open ByteCodec Text Protocol List Except

/-! ### Acknowledgement subjects -/

structure AckSubject where
  consumerId : String
  seq : ℕ
  deliveryId : ℕ
  deriving DecidableEq

def ackSubject (consumerId : String) (seq deliveryId : ℕ) : String :=
  "_MORROW/ACK/" ++ consumerId ++ "/" ++ decimal seq ++ "/" ++ decimal deliveryId

def parseAckSubject (subject : String) : Option AckSubject :=
  match Subject.split subject with
  | [root, kind, consumerId, seq, deliveryId] => do
    guard (root = "_MORROW" ∧ kind = "ACK")
    let seq ← parseUnsigned u64Max seq
    let deliveryId ← parseUnsigned u64Max deliveryId
    some ⟨consumerId, seq, deliveryId⟩
  | _ => none

/-! ### What the broker writes -/

def msg (subject sid : String) (replyTo : Option String) (payload : Bytes) : Bytes :=
  let line := match replyTo with
    | some replyTo => "DELIVER " ++ subject ++ " " ++ sid ++ " " ++ replyTo ++ " " ++
        decimal payload.length ++ "\r\n"
    | none => "DELIVER " ++ subject ++ " " ++ sid ++ " " ++ decimal payload.length ++ "\r\n"
  utf8 line ++ payload ++ crlf

def hmsg (subject sid : String) (replyTo : Option String) (headers : List MessageHeader)
    (payload : Bytes) : Bytes :=
  let block := utf8 (headerBlock headers)
  let headersLen := decimal block.length
  let totalLen := decimal (block.length + payload.length)
  let line := match replyTo with
    | some replyTo => "HDELIVER " ++ subject ++ " " ++ sid ++ " " ++ replyTo ++ " " ++
        headersLen ++ " " ++ totalLen ++ "\r\n"
    | none => "HDELIVER " ++ subject ++ " " ++ sid ++ " " ++ headersLen ++ " " ++ totalLen ++ "\r\n"
  utf8 line ++ block ++ payload ++ crlf

/-! ### What the client reads -/

namespace ClientFrame

structure Message where
  subject : String
  sid : String
  replyTo : Option String
  ackSubject : Option String
  key : Option Bytes
  timestampMs : Option ℕ
  headers : List MessageHeader
  payload : Bytes
  deriving DecidableEq

structure DurableMessage where
  consumer : String
  subject : String
  replyTo : Option String
  headers : List MessageHeader
  stream : String
  partition : ℕ
  offset : ℕ
  key : Option Bytes
  timestampMs : ℕ
  attempt : ℕ
  leaseDeadlineMs : ℕ
  seq : ℕ
  deliveryId : ℕ
  payload : Bytes
  deriving DecidableEq

/-- A frame that delivers a message, or one of the others. -/
inductive ServerFrame
  | message (message : Message)
  | durableMessage (message : DurableMessage)
  | other (operation : String) (parts : List String)

/-- Two digits make a byte. A plus sign may stand for the first. Two bytes that are no
text are taken for granted not to occur. -/
def hexPair (field : String) (high low : UInt8) : Outcome UInt8 :=
  if fromUtf8 [high, low] = none then .error .panicked
  else okOr (field ++ " must be hex") (do
    let first ← if high = 43 then some 0 else hexValue high
    let second ← hexValue low
    some (UInt8.ofNat (16 * first + second)))

def hexPairs (field : String) : Bytes → Outcome Bytes
  | high :: low :: rest => do
    let byte ← hexPair field high low
    let bytes ← hexPairs field rest
    .ok (byte :: bytes)
  | _ => .ok []

def decodeHex (value field : String) : Outcome Bytes := do
  ensure ((utf8 value).length % 2 = 0) (field ++ " must be even-length hex")
  hexPairs field (utf8 value)

/-- `parse_number` for numbers up to a largest one. -/
def parseNumber (largest : ℕ) (value field : String) : Outcome ℕ :=
  okOr (field ++ " must be an integer") (parseUnsigned largest value)

/-- The value of a header, if there is one. -/
def optional {α : Type} (read : String → Outcome α) : Option String → Outcome (Option α)
  | none => .ok none
  | some value => some <$> read value

variable (maxPayload : ℕ)

def parseMsgBody (subject sid : String) (replyTo : Option String)
    (size : String) (input : Bytes) : Outcome (ServerFrame × Bytes) := do
  let size ← parseNumber u64Max size "DELIVER payload size"
  ensure (size ≤ maxPayload) ("DELIVER payload size " ++ decimal size ++ " exceeds max payload " ++
    decimal maxPayload)
  let body ← readBody "reading DELIVER payload" "DELIVER payload must be followed by CRLF" size
    input
  let isAck := (replyTo.bind parseAckSubject).isSome
  .ok (.message ⟨subject, sid, if isAck then none else replyTo, if isAck then replyTo else none,
    none, none, [], body.1⟩, body.2)

variable (parts : List String) (input : Bytes)

def parseMsg :
    Outcome (ServerFrame × Bytes) :=
  match parts with
  | [] => .error (.error "DELIVER missing subject")
  | [_] => .error (.error "DELIVER missing sid")
  | [_, _] => .error (.error "DELIVER missing payload size")
  | [subject, sid, size] => parseMsgBody maxPayload subject sid none size input
  | [subject, sid, replyTo, size] => parseMsgBody maxPayload subject sid (some replyTo) size input
  | _ => .error (.error "DELIVER has too many arguments")

/-- The message with its headers, which say more about it. -/
def headedMessage (subject sid : String) (replyTo : Option String)
    (headers : List MessageHeader) (payload : Bytes) : Outcome Message := do
  let key ← optional (decodeHex · "Morrow-Key-Hex") (headerValue headers "Morrow-Key-Hex")
  let timestampMs ← optional (parseNumber u64Max · "Morrow-Timestamp")
    (headerValue headers "Morrow-Timestamp")
  .ok ⟨subject, sid, replyTo, headerValue headers "Morrow-Ack", key, timestampMs, headers, payload⟩

def parseHmsgBody (subject sid : String) (replyTo : Option String)
    (headersLen totalLen : String) (input : Bytes) : Outcome (ServerFrame × Bytes) := do
  let headersLen ← parseLen "HDELIVER headers length" headersLen
  let totalLen ← parseLen "HDELIVER total length" totalLen
  let body ← readHeaded "HDELIVER" "reading HDELIVER payload" maxPayload headersLen totalLen input
  let headers ← parseHeaders "HDELIVER" body.1.1
  let message ← headedMessage subject sid replyTo headers body.1.2
  .ok (.message message, body.2)

def parseHmsg :
    Outcome (ServerFrame × Bytes) :=
  match parts with
  | [] => .error (.error "HDELIVER missing subject")
  | [_] => .error (.error "HDELIVER missing sid")
  | [_, _] => .error (.error "HDELIVER missing headers length")
  | [_, _, _] => .error (.error "HDELIVER missing total length")
  | [subject, sid, headersLen, totalLen] =>
    parseHmsgBody maxPayload subject sid none headersLen totalLen input
  | [subject, sid, replyTo, headersLen, totalLen] =>
    parseHmsgBody maxPayload subject sid (some replyTo) headersLen totalLen input
  | _ => .error (.error "HDELIVER has too many arguments")

/-! #### Messages of a batch -/

/-- The next word. -/
def nextPart (message : String) : StateT (List String) Outcome String
  | [] => .error (.error message)
  | part :: parts => .ok (part, parts)

/-- The next word as a number. -/
def nextNumber (largest : ℕ) (missing field : String) : StateT (List String) Outcome ℕ := do
  let part ← nextPart missing
  StateT.lift (parseNumber largest part field)

def rejectExtra (frame : String) : StateT (List String) Outcome Unit
  | [] => .ok ((), [])
  | _ :: _ => .error (.error (frame ++ " has too many arguments"))

/-- The words of a message without its body, and the two lengths of the body. -/
def durableParts : StateT (List String) Outcome (DurableMessage × ℕ × ℕ) := do
  let consumer ← nextPart "DDELIVER missing consumer name"
  let subject ← nextPart "DDELIVER missing subject"
  let replyTo ← nextPart "DDELIVER missing reply subject"
  let stream ← nextPart "DDELIVER missing stream"
  let partition ← nextNumber u32Max "DDELIVER missing partition" "DDELIVER partition"
  let offset ← nextNumber u64Max "DDELIVER missing offset" "DDELIVER offset"
  let key ← nextPart "DDELIVER missing key"
  let key ← StateT.lift
    (optional (decodeHex · "DDELIVER key") (if key = "-" then none else some key))
  let timestampMs ← nextNumber u64Max "DDELIVER missing timestamp" "DDELIVER timestamp"
  let attempt ← nextNumber u32Max "DDELIVER missing attempt" "DDELIVER attempt"
  let leaseDeadlineMs ← nextNumber u64Max "DDELIVER missing lease deadline"
    "DDELIVER lease deadline"
  let seq ← nextNumber u64Max "DDELIVER missing sequence" "DDELIVER sequence"
  let deliveryId ← nextNumber u64Max "DDELIVER missing delivery id" "DDELIVER delivery id"
  let headersLen ← nextNumber u64Max "DDELIVER missing headers length" "DDELIVER headers length"
  let totalLen ← nextNumber u64Max "DDELIVER missing total length" "DDELIVER total length"
  rejectExtra "DDELIVER"
  pure (⟨consumer, subject, if replyTo = "-" then none else some replyTo, [], stream, partition,
    offset, key, timestampMs, attempt, leaseDeadlineMs, seq, deliveryId, []⟩, headersLen, totalLen)

def parseDurableMessage :
    Outcome (ServerFrame × Bytes) := do
  let read ← durableParts.run parts
  let body ← readHeaded "DDELIVER" "reading DDELIVER payload" maxPayload read.1.2.1 read.1.2.2 input
  let headers ← parseHeaders "HDELIVER" body.1.1
  .ok (.durableMessage { read.1.1 with headers := headers, payload := body.1.2 }, body.2)

/-- The frames that are a line only. -/
def lineFrames : List String :=
  ["INFO", "PONG", "+OK", "-ERR", "P-ACK", "C-OK", "D-OK", "BATCH", "G-OK"]

/-- `parse_frame`; frames that deliver nothing are left as they are. -/
def parseFrame (line : String) (input : Bytes) : Outcome (ServerFrame × Bytes) :=
  match splitWhitespace line with
  | [] => .error (.error "empty server frame")
  | operation :: parts =>
    if operation = "DDELIVER" then parseDurableMessage maxPayload parts input
    else if operation = "DELIVER" then parseMsg maxPayload parts input
    else if operation = "HDELIVER" then parseHmsg maxPayload parts input
    else if operation ∈ lineFrames then .ok (.other operation parts, input)
    else .error (.error ("unsupported server frame " ++ operation))

def readFrame : Outcome (Option (ServerFrame × Bytes)) :=
  let read := readUntilNewline input
  if read.1 = [] then .ok none
  else do
    let line ← trimCrlf "server frame missing newline" read.1
    let line ← okOr "server frame is not UTF-8" (fromUtf8 line)
    some <$> parseFrame maxPayload line read.2

/-! ### Reading what was written -/

theorem readFrame_line {words : List String}
    (plain : ∀ word ∈ words, ∀ symbol ∈ word.toList, Text.isWhitespace symbol = false)
    (rest : Bytes) :
    readFrame maxPayload (utf8 (joinWords words ++ "\r\n") ++ rest) =
      some <$> parseFrame maxPayload (joinWords words) rest := by
  have ended : utf8 (joinWords words ++ "\r\n") = utf8 (joinWords words) ++ crlf := by
    rfl
  have nonempty : utf8 (joinWords words) ++ crlf ≠ [] := by simp [crlf]
  rw [readFrame, ended, readUntilNewline_line (lineFeed_notMem_joinWords plain)]
  simp only [nonempty, if_false, trimCrlf_line, ok_bind, fromUtf8_utf8, okOr]

theorem parseNumber_decimal {largest value read : ℕ} {field : String} :
    parseNumber largest (decimal value) field = .ok read ↔ value ≤ largest ∧ read = value :=
  okOr_decimal

section Reading

variable {maxPayload : ℕ} {subject sid : String} {replyTo : Option String} {payload rest : Bytes}

/-- The message that is read from a plain frame. -/
def plainMessage (subject sid : String) (replyTo : Option String) (payload : Bytes) : Message :=
  let isAck := (replyTo.bind parseAckSubject).isSome
  ⟨subject, sid, if isAck then none else replyTo, if isAck then replyTo else none, none, none, [],
    payload⟩

variable {frame : ServerFrame × Bytes}

theorem parseMsgBody_eq_ok (bounded : maxPayload ≤ u64Max) :
    parseMsgBody maxPayload subject sid replyTo (decimal payload.length)
        (payload ++ crlf ++ rest) = .ok frame ↔
      payload.length ≤ maxPayload ∧
        frame = (.message (plainMessage subject sid replyTo payload), rest) := by
  constructor
  · intro read
    obtain ⟨size, parsed, read⟩ := bind_eq_ok.mp read
    obtain ⟨-, rfl⟩ := parseNumber_decimal.mp parsed
    obtain ⟨_, fits, read⟩ := bind_eq_ok.mp read
    rw [readBody_ended] at read
    exact ⟨ensure_eq_ok.mp fits, (ok.inj read).symm⟩
  · rintro ⟨fits, rfl⟩
    rw [parseMsgBody, parseNumber_decimal.mpr ⟨fits.trans bounded, rfl⟩, ok_bind, ensure_of fits,
      readBody_ended]
    rfl

variable {headers : List MessageHeader}

theorem parseHmsgBody_eq_ok (bounded : maxPayload ≤ u64Max)
    (clean : ∀ header ∈ headers, Clean header) :
    let block := utf8 (headerBlock headers)
    parseHmsgBody maxPayload subject sid replyTo (decimal block.length)
        (decimal (block.length + payload.length)) (block ++ payload ++ crlf ++ rest) = .ok frame ↔
      block.length + payload.length ≤ maxPayload ∧ ∃ message,
        headedMessage subject sid replyTo headers payload = .ok message ∧
          frame = (.message message, rest) := by
  intro block
  have read : ∀ message, headedMessage subject sid replyTo headers payload = .ok message →
      block.length + payload.length ≤ maxPayload →
      parseHmsgBody maxPayload subject sid replyTo (decimal block.length)
        (decimal (block.length + payload.length)) (block ++ payload ++ crlf ++ rest) =
          .ok (.message message, rest) := by
    intro message headed fits
    have small : block.length ≤ u64Max := (Nat.le_add_right _ _).trans (fits.trans bounded)
    rw [parseHmsgBody, parseLen_decimal.mpr ⟨small, rfl⟩, ok_bind,
      parseLen_decimal.mpr ⟨fits.trans bounded, rfl⟩, ok_bind,
      (readHeaded_eq_ok _ _ _ _ _ _).mpr ⟨fits, rfl⟩, ok_bind, parseHeaders_headerBlock clean,
      ok_bind, headed, ok_bind]
  constructor
  · intro accepted
    obtain ⟨headersLen, parsed, accepted⟩ := bind_eq_ok.mp accepted
    obtain ⟨-, rfl⟩ := parseLen_decimal.mp parsed
    obtain ⟨totalLen, parsed, accepted⟩ := bind_eq_ok.mp accepted
    obtain ⟨-, rfl⟩ := parseLen_decimal.mp parsed
    obtain ⟨body, bodyRead, accepted⟩ := bind_eq_ok.mp accepted
    obtain ⟨fits, rfl⟩ := (readHeaded_eq_ok _ _ _ _ _ _).mp bodyRead
    rw [parseHeaders_headerBlock clean, ok_bind] at accepted
    obtain ⟨message, headed, same⟩ := bind_eq_ok.mp accepted
    exact ⟨fits, message, headed, (ok.inj same).symm⟩
  · rintro ⟨fits, message, headed, rfl⟩
    exact read message headed fits

/-- A line of words, none of which is lost. -/
theorem readFrame_words {operation : String} {parts : List String}
    (words : ∀ word ∈ operation :: parts, IsWord word) (rest : Bytes) :
    readFrame maxPayload (utf8 (joinWords (operation :: parts) ++ "\r\n") ++ rest) =
        .ok (some frame) ↔
      (if operation = "DDELIVER" then parseDurableMessage maxPayload parts rest
        else if operation = "DELIVER" then parseMsg maxPayload parts rest
        else if operation = "HDELIVER" then parseHmsg maxPayload parts rest
        else if operation ∈ lineFrames then .ok (.other operation parts, rest)
        else .error (.error ("unsupported server frame " ++ operation))) = .ok frame := by
  have plain := fun word member => (words word member).2
  have kept : (operation :: parts).filter (· ≠ "") = operation :: parts := by
    rw [filter_eq_self]
    exact fun word member => decide_eq_true (words word member).1
  rw [readFrame_line maxPayload plain, map_some_eq_ok, parseFrame, splitWhitespace_joinWords plain,
    kept]

theorem readFrame_msg (bounded : maxPayload ≤ u64Max) (subjectWord : IsWord subject)
    (sidWord : IsWord sid) (replyWord : ∀ reply ∈ replyTo, IsWord reply) :
    readFrame maxPayload (msg subject sid replyTo payload ++ rest) = .ok (some frame) ↔
      payload.length ≤ maxPayload ∧
        frame = (.message (plainMessage subject sid replyTo payload), rest) := by
  rw [← parseMsgBody_eq_ok bounded]
  have operation : IsWord "DELIVER" := by decide
  have size : IsWord (decimal payload.length) := isWord_toString _
  have shape : msg subject sid replyTo payload ++ rest =
      utf8 (joinWords ("DELIVER" :: ([subject, sid] ++ replyTo.toList ++ [decimal payload.length]))
        ++ "\r\n") ++ (payload ++ crlf ++ rest) := by
    cases replyTo <;> simp [msg, joinWords, ← String.append_assoc]
  rw [shape, readFrame_words]
  · cases replyTo <;> rfl
  · simp only [forall_mem_cons, forall_mem_append, Option.mem_toList, not_mem_nil,
      false_implies, implies_true, and_true]
    exact ⟨operation, ⟨⟨subjectWord, sidWord⟩, replyWord⟩, size⟩

theorem readFrame_hmsg (bounded : maxPayload ≤ u64Max) (subjectWord : IsWord subject)
    (sidWord : IsWord sid) (replyWord : ∀ reply ∈ replyTo, IsWord reply)
    (clean : ∀ header ∈ headers, Clean header) :
    readFrame maxPayload (hmsg subject sid replyTo headers payload ++ rest) = .ok (some frame) ↔
      (utf8 (headerBlock headers)).length + payload.length ≤ maxPayload ∧ ∃ message,
        headedMessage subject sid replyTo headers payload = .ok message ∧
          frame = (.message message, rest) := by
  refine Iff.trans ?_ (parseHmsgBody_eq_ok bounded clean)
  let block := utf8 (headerBlock headers)
  have operation : IsWord "HDELIVER" := by decide
  have headersLen : IsWord (decimal block.length) := isWord_toString _
  have totalLen : IsWord (decimal (block.length + payload.length)) := isWord_toString _
  have shape : hmsg subject sid replyTo headers payload ++ rest =
      utf8 (joinWords ("HDELIVER" :: ([subject, sid] ++ replyTo.toList ++
        [decimal block.length, decimal (block.length + payload.length)])) ++ "\r\n") ++
        (block ++ payload ++ crlf ++ rest) := by
    cases replyTo <;> simp [hmsg, joinWords, ← String.append_assoc, block]
  rw [shape, readFrame_words]
  · cases replyTo <;> rfl
  · simp only [forall_mem_cons, forall_mem_append, Option.mem_toList, not_mem_nil,
      false_implies, implies_true, and_true]
    exact ⟨operation, ⟨⟨subjectWord, sidWord⟩, replyWord⟩, headersLen, totalLen⟩

theorem headedMessage_eq_ok {message : Message} :
    headedMessage subject sid replyTo headers payload = .ok message ↔ ∃ key timestampMs,
      optional (decodeHex · "Morrow-Key-Hex") (headerValue headers "Morrow-Key-Hex") = .ok key ∧
      optional (parseNumber u64Max · "Morrow-Timestamp") (headerValue headers "Morrow-Timestamp") =
        .ok timestampMs ∧
      message = ⟨subject, sid, replyTo, headerValue headers "Morrow-Ack", key, timestampMs, headers,
        payload⟩ := by
  constructor
  · intro headed
    obtain ⟨key, decoded, headed⟩ := bind_eq_ok.mp headed
    obtain ⟨timestampMs, parsed, same⟩ := bind_eq_ok.mp headed
    exact ⟨key, timestampMs, decoded, parsed, (ok.inj same).symm⟩
  · rintro ⟨key, timestampMs, decoded, parsed, rfl⟩
    rw [headedMessage, decoded, ok_bind, parsed, ok_bind]

/-! #### Messages of a batch -/

section Parts

variable {α β : Type} {missing field part : String} {parts : List String} {largest value : ℕ}
  {read : β × List String}

theorem run_nextPart {next : String → StateT (List String) Outcome β} :
    (nextPart missing >>= next).run (part :: parts) = (next part).run parts := rfl

theorem run_lift {outcome : Outcome α} {next : α → StateT (List String) Outcome β} :
    (StateT.lift outcome >>= next).run parts = .ok read ↔
      ∃ value, outcome = .ok value ∧ (next value).run parts = .ok read := by
  cases outcome with
  | error failure => exact ⟨(nomatch ·), fun ⟨_, failed, _⟩ => nomatch failed⟩
  | ok value => simp only [ok.injEq, exists_eq_left']; rfl

theorem run_nextNumber {next : ℕ → StateT (List String) Outcome β} :
    (nextNumber largest missing field >>= next).run (decimal value :: parts) = .ok read ↔
      value ≤ largest ∧ (next value).run parts = .ok read := by
  rw [nextNumber, bind_assoc, run_nextPart, run_lift]
  simp [parseNumber_decimal]

end Parts

/-- The words of a message of a batch are read, unless its lengths are too large. -/
theorem run_durableParts (name subject replyTo stream key : String) {partition offset timestampMs
    attempt deadlineMs seq deliveryId headersLen totalLen : ℕ} (partitionFits : partition ≤ u32Max)
    (offsetFits : offset ≤ u64Max) (timestampFits : timestampMs ≤ u64Max)
    (attemptFits : attempt ≤ u32Max) (deadlineFits : deadlineMs ≤ u64Max) (seqFits : seq ≤ u64Max)
    (deliveryFits : deliveryId ≤ u64Max) (inside : headersLen ≤ totalLen)
    (read : (DurableMessage × ℕ × ℕ) × List String) :
    durableParts.run [name, subject, replyTo, stream, decimal partition, decimal offset, key,
        decimal timestampMs, decimal attempt, decimal deadlineMs, decimal seq, decimal deliveryId,
        decimal headersLen, decimal totalLen] = .ok read ↔
      totalLen ≤ u64Max ∧ ∃ bytes,
        optional (decodeHex · "DDELIVER key") (if key = "-" then none else some key) = .ok bytes ∧
        read = ((⟨name, subject, if replyTo = "-" then none else some replyTo, [], stream,
          partition, offset, bytes, timestampMs, attempt, deadlineMs, seq, deliveryId, []⟩,
          headersLen, totalLen), []) := by
  simp only [durableParts, run_nextPart, run_nextNumber, run_lift, partitionFits, offsetFits,
    timestampFits, attemptFits, deadlineFits, seqFits, deliveryFits, true_and]
  constructor
  · rintro ⟨bytes, decoded, -, fits, same⟩
    exact ⟨fits, bytes, decoded, (ok.inj same).symm⟩
  · rintro ⟨fits, bytes, decoded, rfl⟩
    exact ⟨bytes, decoded, inside.trans fits, fits, rfl⟩

/-- Whatever the reader makes of them, there are so many words. -/
def Exhausts {α : Type} (reader : StateT (List String) Outcome α) (count : ℕ) : Prop :=
  ∀ parts read, reader.run parts = .ok read → parts.length = count

namespace Exhausts

variable {α β : Type} {count : ℕ}

theorem nextPart {next : String → StateT (List String) Outcome β} (missing : String)
    (later : ∀ part, Exhausts (next part) count) :
    Exhausts (ClientFrame.nextPart missing >>= next) (count + 1) := by
  intro parts read done
  cases parts with
  | nil => cases done
  | cons part parts => rw [length_cons, later part parts read done]

theorem lift {next : α → StateT (List String) Outcome β} (outcome : Outcome α)
    (later : ∀ value, Exhausts (next value) count) :
    Exhausts (StateT.lift outcome >>= next) count := by
  intro parts read done
  cases outcome with
  | error failure => cases done
  | ok value => exact later value parts read done

theorem nextNumber {next : ℕ → StateT (List String) Outcome β} (largest : ℕ)
    (missing field : String) (later : ∀ value, Exhausts (next value) count) :
    Exhausts (ClientFrame.nextNumber largest missing field >>= next) (count + 1) := by
  rw [ClientFrame.nextNumber, bind_assoc]
  exact nextPart missing fun part => lift _ later

theorem rejectExtra (frame : String) (value : β) :
    Exhausts (ClientFrame.rejectExtra frame >>= fun _ => pure value) 0 := by
  intro parts read done
  cases parts with
  | nil => rfl
  | cons part parts => cases done

end Exhausts

theorem exhausts_durableParts : Exhausts durableParts 14 :=
  .nextPart _ fun _ => .nextPart _ fun _ => .nextPart _ fun _ => .nextPart _ fun _ =>
    .nextNumber _ _ _ fun _ => .nextNumber _ _ _ fun _ => .nextPart _ fun _ => .lift _ fun _ =>
      .nextNumber _ _ _ fun _ => .nextNumber _ _ _ fun _ => .nextNumber _ _ _ fun _ =>
        .nextNumber _ _ _ fun _ => .nextNumber _ _ _ fun _ => .nextNumber _ _ _ fun _ =>
          .nextNumber _ _ _ fun _ => .rejectExtra _ _

/-! #### Bytes in hexadecimal -/

/-- The letter of a digit. -/
def hexCode (value : ℕ) : UInt8 := UInt8.ofNat (hexDigit value).toNat

theorem hexCode_spec (value : ℕ) (small : value < 16) :
    String.utf8EncodeChar (hexDigit value) = [hexCode value] ∧ hexCode value ≠ 43 ∧
      hexValue (hexCode value) = some value := by
  interval_cases value <;> decide

theorem utf8_hex (bytes : Bytes) : utf8 (hex bytes) =
    bytes.flatMap fun byte => [hexCode (byte.toNat / 16), hexCode (byte.toNat % 16)] := by
  rw [utf8_eq_flatMap, hex, String.toList_ofList, flatMap_assoc]
  congr 1
  funext byte
  have bounded := byte.toNat_lt
  have high := hexCode_spec (byte.toNat / 16) (by omega)
  have low := hexCode_spec (byte.toNat % 16) (by omega)
  simp [high.1, low.1]

theorem hexPair_hex (field : String) (byte : UInt8) :
    hexPair field (hexCode (byte.toNat / 16)) (hexCode (byte.toNat % 16)) = .ok byte := by
  have text : fromUtf8 [hexCode (byte.toNat / 16), hexCode (byte.toNat % 16)] ≠ none := by
    have whole := utf8_hex [byte]
    rw [flatMap_singleton] at whole
    rw [← whole, fromUtf8_utf8]
    exact Option.some_ne_none _
  have bounded := byte.toNat_lt
  have high := hexCode_spec (byte.toNat / 16) (by omega)
  have low := hexCode_spec (byte.toNat % 16) (by omega)
  have whole : 16 * (byte.toNat / 16) + byte.toNat % 16 = byte.toNat := by omega
  rw [hexPair, if_neg text, if_neg high.2.1, high.2.2, low.2.2]
  simp only [Option.bind_eq_bind, Option.bind_some, whole, UInt8.ofNat_toNat, okOr]

theorem decodeHex_hex (bytes : Bytes) (field : String) :
    decodeHex (hex bytes) field = .ok bytes := by
  have pairs : hexPairs field (bytes.flatMap fun byte =>
      [hexCode (byte.toNat / 16), hexCode (byte.toNat % 16)]) = .ok bytes := by
    induction bytes with
    | nil => rfl
    | cons byte bytes ih =>
      rw [flatMap_cons, cons_append, cons_append, nil_append, hexPairs,
        hexPair_hex, ok_bind, ih, ok_bind]
  rw [decodeHex, length_utf8_hex, ensure_of (Nat.mul_mod_left _ _), ok_bind, utf8_hex, pairs]

/-- The names and numbers of a delivery are ones that the broker can have. -/
structure Placed (name stream : String) (message : PublishRecord)
    (attempt deadlineMs seq deliveryId : ℕ) : Prop where
  nameWord : IsWord name
  inStream : message.stream = some stream
  streamWord : IsWord stream
  partition : message.partition.getD 0 ≤ u32Max
  offset : message.offset.getD 0 ≤ u64Max
  timestampMs : message.timestampMs ≤ u64Max
  attempt : attempt ≤ u32Max
  deadlineMs : deadlineMs ≤ u64Max
  seq : seq ≤ u64Max
  deliveryId : deliveryId ≤ u64Max

/-- The message as the client gets it. A dash stands for no reply subject. -/
def batchMessage (name stream : String) (message : PublishRecord)
    (attempt deadlineMs seq deliveryId : ℕ) : DurableMessage :=
  ⟨name, message.subject, if message.replyTo.getD "-" = "-" then none else message.replyTo,
    message.headers, stream, message.partition.getD 0, message.offset.getD 0, message.key,
    message.timestampMs, attempt, deadlineMs, seq, deliveryId, message.payload⟩

section Batch

variable {name stream : String} {message : PublishRecord} {attempt deadlineMs seq deliveryId : ℕ}

/-- The words of a message of a batch after the first one. -/
def batchWords (name stream : String) (message : PublishRecord)
    (attempt deadlineMs seq deliveryId : ℕ) : List String :=
  let block := utf8 (headerBlock message.headers)
  [name, message.subject, message.replyTo.getD "-", stream, decimal (message.partition.getD 0),
    decimal (message.offset.getD 0), (message.key.map hex).getD "-", decimal message.timestampMs,
    decimal attempt, decimal deadlineMs, decimal seq, decimal deliveryId, decimal block.length,
    decimal (block.length + message.payload.length)]

theorem durableMessage_eq (placed : Placed name stream message attempt deadlineMs seq deliveryId)
    (rest : Bytes) :
    durableMessage name message attempt deadlineMs seq deliveryId ++ rest =
      utf8 (joinWords ("DDELIVER" :: batchWords name stream message attempt deadlineMs seq
        deliveryId) ++ "\r\n") ++
        (utf8 (headerBlock message.headers) ++ message.payload ++ crlf ++ rest) := by
  have ended : utf8 "\r\n" = crlf := rfl
  simp [durableMessage, batchWords, joinWords, placed.inStream, ended, ← String.append_assoc]

theorem hex_eq_dash (bytes : Bytes) : hex bytes ≠ "-" := by
  intro same
  have length := length_utf8_hex bytes
  rw [same] at length
  have odd : (utf8 "-").length = 1 := by decide +kernel
  omega

theorem hex_eq_empty {bytes : Bytes} : hex bytes = "" ↔ bytes = [] := by
  constructor
  · intro same
    have length := length_utf8_hex bytes
    rw [same] at length
    have none : (utf8 "").length = 0 := rfl
    exact eq_nil_of_length_eq_zero (by omega)
  · rintro rfl
    rfl

theorem plain_hex (bytes : Bytes) :
    ∀ symbol ∈ (hex bytes).toList, Text.isWhitespace symbol = false ∧ symbol ≠ '/' := by
  intro symbol member
  rw [hex, String.toList_ofList, mem_flatMap] at member
  obtain ⟨byte, -, digit⟩ := member
  have bounded := byte.toNat_lt
  have digits : ∀ value < 16, Text.isWhitespace (hexDigit value) = false ∧
      hexDigit value ≠ '/' := by
    decide
  rcases mem_cons.mp digit with rfl | second
  · exact digits _ (by omega)
  · obtain rfl := mem_singleton.mp second
    exact digits _ (by omega)

/-- The key of a message is a word, unless it is empty. -/
theorem keyWord (key : Option Bytes) :
    (∀ symbol ∈ ((key.map hex).getD "-").toList, Text.isWhitespace symbol = false) ∧
      ((key.map hex).getD "-" = "" ↔ key = some []) := by
  cases key with
  | none => exact ⟨by simp; decide, by simp⟩
  | some bytes =>
    refine ⟨fun symbol member => (plain_hex bytes symbol member).1, ?_⟩
    rw [Option.map_some, Option.getD_some, hex_eq_empty, Option.some.injEq]

theorem optional_key (key : Option Bytes) (field : String) :
    optional (decodeHex · field) (if (key.map hex).getD "-" = "-" then none
      else some ((key.map hex).getD "-")) = .ok key := by
  cases key with
  | none => rfl
  | some bytes =>
    rw [Option.map_some, Option.getD_some, if_neg (hex_eq_dash bytes), optional, decodeHex_hex]
    rfl

theorem plain_batchWords (placed : Placed name stream message attempt deadlineMs seq deliveryId)
    (subjectWord : IsWord message.subject) (replyWord : ∀ reply ∈ message.replyTo, IsWord reply) :
    ∀ word ∈ "DDELIVER" :: batchWords name stream message attempt deadlineMs seq deliveryId,
      (∀ symbol ∈ word.toList, Text.isWhitespace symbol = false) ∧
        (message.key ≠ some [] → IsWord word) := by
  have of_word : ∀ {word : String}, IsWord word →
      (∀ symbol ∈ word.toList, Text.isWhitespace symbol = false) ∧
        (message.key ≠ some [] → IsWord word) := fun word => ⟨word.2, fun _ => word⟩
  have number := fun value => of_word (isWord_toString value)
  have reply : IsWord (message.replyTo.getD "-") := by
    cases given : message.replyTo with
    | none => decide
    | some reply => exact replyWord reply given
  have key := keyWord message.key
  simp only [batchWords, forall_mem_cons, not_mem_nil, false_implies, implies_true, and_true]
  exact ⟨of_word (by decide), of_word placed.nameWord, of_word subjectWord, of_word reply,
    of_word placed.streamWord, number _, number _,
    ⟨key.1, fun given => ⟨fun empty => given (key.2.mp empty), key.1⟩⟩, number _, number _,
    number _, number _, number _, number _, number _⟩

/-- A message of a batch is read if it is not too long, unless its key is empty. -/
theorem readFrame_durableMessage (bounded : maxPayload ≤ u64Max)
    (placed : Placed name stream message attempt deadlineMs seq deliveryId)
    (subjectWord : IsWord message.subject) (replyWord : ∀ reply ∈ message.replyTo, IsWord reply)
    (clean : ∀ header ∈ message.headers, Clean header) {frame : ServerFrame × Bytes} :
    readFrame maxPayload (durableMessage name message attempt deadlineMs seq deliveryId ++ rest) =
        .ok (some frame) ↔
      message.key ≠ some [] ∧
        (utf8 (headerBlock message.headers)).length + message.payload.length ≤ maxPayload ∧
        frame = (.durableMessage (batchMessage name stream message attempt deadlineMs seq
          deliveryId), rest) := by
  have words := plain_batchWords placed subjectWord replyWord
  rw [durableMessage_eq placed]
  by_cases empty : message.key = some []
  · -- The word of the key is lost, so there are too few of them.
    simp only [empty, ne_eq, not_true_eq_false, false_and, iff_false]
    have plain := fun word member => (words word member).1
    rw [readFrame_line maxPayload plain, map_some_eq_ok, parseFrame,
      splitWhitespace_joinWords plain]
    intro read
    obtain ⟨fields, parsed, -⟩ := bind_eq_ok.mp read
    have count := exhausts_durableParts _ _ parsed
    have fewer : ((batchWords name stream message attempt deadlineMs seq deliveryId).filter
        (· ≠ "")).length < 14 := by
      apply length_filter_lt_length_iff_exists.mpr
      simp [batchWords, (keyWord message.key).2.mpr empty]
    omega
  · rw [readFrame_words fun word member => (words word member).2 empty, if_pos rfl,
      parseDurableMessage, bind_eq_ok]
    have parts := run_durableParts name message.subject (message.replyTo.getD "-") stream
      ((message.key.map hex).getD "-") placed.partition placed.offset placed.timestampMs
      placed.attempt placed.deadlineMs placed.seq placed.deliveryId
      (Nat.le_add_right (utf8 (headerBlock message.headers)).length message.payload.length)
    have reply : (if message.replyTo.getD "-" = "-" then none
        else some (message.replyTo.getD "-")) =
          if message.replyTo.getD "-" = "-" then none else message.replyTo := by
      cases message.replyTo with
      | none => rfl
      | some reply => rfl
    simp only [optional_key, ok.injEq, exists_eq_left'] at parts
    constructor
    · rintro ⟨read, parsed, accepted⟩
      obtain ⟨-, rfl⟩ := (parts read).mp parsed
      obtain ⟨body, bodyRead, accepted⟩ := bind_eq_ok.mp accepted
      obtain ⟨fits, rfl⟩ := (readHeaded_eq_ok _ _ _ _ _ _).mp bodyRead
      rw [parseHeaders_headerBlock clean, ok_bind, reply] at accepted
      exact ⟨empty, fits, (ok.inj accepted).symm⟩
    · rintro ⟨-, fits, rfl⟩
      refine ⟨_, (parts _).mpr ⟨fits.trans bounded, rfl⟩, ?_⟩
      rw [(readHeaded_eq_ok _ _ _ _ _ _).mpr ⟨fits, rfl⟩, ok_bind, parseHeaders_headerBlock clean,
        ok_bind, reply]
      rfl

end Batch

end Reading

end ClientFrame

end Morrow
