import Morrow.ConsumerCursor
import Morrow.WalReplay

/-!
# Durable consumers

The broker's in-memory view of a durable consumer.
-/

namespace Morrow

/-- A connection that takes deliveries for the consumer. -/
structure SubscriptionMember where
  sid : String
  remainingDeliveries : Option ℕ
  creditMessages : ℕ
  creditBytes : ℕ
deriving DecidableEq

/-- A delivery that has not been settled. -/
structure InFlight where
  deliveryId : ℕ
  deadlineMs : ℕ
  attempt : ℕ
  retryWaiting : Bool
deriving DecidableEq

structure Consumer where
  record : ConsumerRecord
  cursors : ConsumerCursorSet
  members : OrderedMap ℕ SubscriptionMember
  pending : Finset ℕ
  pendingAttempts : OrderedMap ℕ ℕ
  preparing : Finset ℕ
  inFlight : OrderedMap ℕ InFlight
  acked : Finset ℕ
  delivered : ℕ
deriving DecidableEq

end Morrow
