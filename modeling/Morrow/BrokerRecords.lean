import Morrow.Envelope
import Morrow.OrderedMap

/-!
# What the broker keeps about messages and consumers

The records below are written to the broker's journal, kept in memory and handed
between the two. Counters and offsets are natural numbers; the sets and maps of
the program are finite sets and ordered maps.
-/

namespace Morrow

open ByteCodec

/-- A published message. Messages of a stream have a partition and an offset. -/
structure PublishRecord where
  seq : ℕ
  nameSpace : String
  stream : Option String
  partition : Option ℕ
  offset : Option ℕ
  subject : String
  key : Option Bytes
  headers : List MessageHeader
  timestampMs : ℕ
  replyTo : Option String
  payload : Bytes
  partitioningEpoch : ℕ
  leaderEpoch : ℕ
deriving DecidableEq

/-- Where a new consumer starts. -/
inductive StartPosition
  | earliest
  | latest
  | committed
  | offset (value : ℕ)
  | timestamp (value : ℕ)
deriving DecidableEq

inductive RetryBackoff
  | fixed
  | exponential
deriving DecidableEq

inductive RetryTerminalAction
  | deadLetter
  | discard
  | pause
  | retain
deriving DecidableEq

structure RetryPolicy where
  maxAttempts : ℕ
  backoff : RetryBackoff
  initialDelayMs : ℕ
  maxDelayMs : ℕ
  jitterPercent : ℕ
  terminalAction : RetryTerminalAction
deriving DecidableEq

/-- The policy of a consumer that names none. -/
def RetryPolicy.default : RetryPolicy where
  maxAttempts := u32Max
  backoff := .fixed
  initialDelayMs := 0
  maxDelayMs := 300000
  jitterPercent := 0
  terminalAction := .retain

/-- How far a consumer has come in one partition. -/
structure PartitionCursor where
  stream : String
  partition : ℕ
  committedOffset : ℕ
  deliveredOffset : Option ℕ
  acknowledgedOffsets : Finset ℕ
  retentionGaps : ℕ
deriving DecidableEq

/-- The cursors of a consumer, by partition. A frontier lists the matching offsets
of a partition in order, once it has been looked up. -/
structure ConsumerCursorSet where
  partitions : OrderedMap String PartitionCursor
  ackWindow : ℕ
  frontiers : OrderedMap String (List ℕ)
deriving DecidableEq

def ConsumerCursorSet.default : ConsumerCursorSet := ⟨∅, 1024, ∅⟩

structure ConsumerRecord where
  consumerId : String
  filterSubject : String
  queueGroup : Option String
  ackTimeoutMs : ℕ
  maxInFlight : ℕ
  startPosition : StartPosition
  retryPolicy : RetryPolicy
deriving DecidableEq

/-- One delivery of a message, or the wait before the next one. -/
structure DeliveryAttemptRecord where
  seq : ℕ
  consumerId : String
  deliveryId : ℕ
  deadlineMs : ℕ
  attempt : ℕ
  retryWaiting : Bool
deriving DecidableEq

structure AckRecord where
  seq : ℕ
  consumerId : String
  deliveryId : ℕ
deriving DecidableEq

structure DeadLetterRecord where
  id : ℕ
  sourceSeq : ℕ
  consumerId : String
  sourceStream : Option String
  sourcePartition : Option ℕ
  sourceOffset : Option ℕ
  reason : String
  attemptCount : ℕ
  firstDeliveryMs : ℕ
  lastDeliveryMs : ℕ
  payload : Bytes
deriving DecidableEq

structure ProducerSequenceRecord where
  producerId : String
  epoch : ℕ
  sequence : ℕ
  fingerprint : ℕ
  record : PublishRecord
deriving DecidableEq

/-- The journal's note that a record was appended to a partition. -/
structure PartitionAppendRecord where
  seq : ℕ
  stream : String
  partition : ℕ
  offset : ℕ
  subject : String
deriving DecidableEq

structure ConsumerCursorRecord where
  consumerId : String
  cursors : ConsumerCursorSet
deriving DecidableEq

structure ConsumerCursorDeltaRecord where
  consumerId : String
  ackWindow : ℕ
  cursor : PartitionCursor
deriving DecidableEq

/-! ### Consumer groups -/

/-- The state of a consumer group as it is journaled, without the parts of its
configuration and of its snapshot that only the groups' coordinator looks at. -/
structure GroupRecord where
  partitions : ℕ
  generation : ℕ
  committedOffsets : OrderedMap ℕ ℕ
deriving DecidableEq

end Morrow
