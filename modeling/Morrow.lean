import Morrow.AckAuthority
import Morrow.BrokerViews
import Morrow.CatchUp
import Morrow.CommitJournal
import Morrow.CommitSetFencing
import Morrow.CommittedDeltas
import Morrow.DeadLetters
import Morrow.DeliveryMetadata
import Morrow.FetchFailures
import Morrow.IdempotentProducer
import Morrow.InFlightLimit
import Morrow.IssuedNumbers
import Morrow.KeyCompaction
import Morrow.MetadataCommits
import Morrow.PartitionRuns
import Morrow.PartitionTornTail
import Morrow.QuotaRuns
import Morrow.ReplicaCommit
import Morrow.TaskRuns
import Morrow.TransactionFailures
import Morrow.TransactionHistory
import Morrow.TransactionTornTail
import Morrow.ViewTornTail
import Morrow.ViewWatch
import Morrow.WalFailedAppend
