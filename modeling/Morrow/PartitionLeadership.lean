import Morrow.GuardedRuns
import Morrow.RaftMetadata

/-!
# Leaders and epochs

An epoch of a partition has one leader. The commands for a single partition compare
the epochs they carry with the ones they find. An update of a stream's partitions
carries whole assignments, and so does the first command of a cluster; these are
stored as they come.
-/

namespace Morrow

open GuardedRuns OrderedMap

namespace PartitionAssignmentMetadata

/-- The epoch and the generation are not lower, and the epoch has the same leader. -/
structure Follows (before after : PartitionAssignmentMetadata) : Prop where
  epoch : before.leaderEpoch ≤ after.leaderEpoch
  generation : before.replicaSetGeneration ≤ after.replicaSetGeneration
  leader : before.leaderEpoch = after.leaderEpoch → before.leaderId = after.leaderId

variable (assignment : PartitionAssignmentMetadata)

theorem Follows.refl : assignment.Follows assignment :=
  ⟨le_refl _, le_refl _, fun _ => rfl⟩

theorem Follows.trans {first second third : PartitionAssignmentMetadata}
    (earlier : first.Follows second) (later : second.Follows third) : first.Follows third where
  epoch := earlier.epoch.trans later.epoch
  generation := earlier.generation.trans later.generation
  leader := by
    intro same
    have up := earlier.epoch
    have down := later.epoch
    exact (earlier.leader (by omega)).trans (later.leader (by omega))

theorem normalize_follows : assignment.Follows assignment.normalize := by
  refine ⟨le_refl _, ?_, fun _ => rfl⟩
  simp only [normalize]
  split <;> omega

end PartitionAssignmentMetadata

namespace DurableState

/-- Every assignment stays, as itself or as one that follows it. -/
def AssignmentsFollow (before after : DurableState) : Prop :=
  ∀ key assignment, before.partitionAssignments.get? key = some assignment →
    ∃ next, after.partitionAssignments.get? key = some next ∧ assignment.Follows next

theorem AssignmentsFollow.refl (state : DurableState) : state.AssignmentsFollow state :=
  fun _ assignment found => ⟨assignment, found, .refl assignment⟩

theorem AssignmentsFollow.trans (first second third : DurableState)
    (earlier : first.AssignmentsFollow second) (later : second.AssignmentsFollow third) :
    first.AssignmentsFollow third := by
  intro key assignment found
  obtain ⟨middle, held, follows⟩ := earlier key assignment found
  obtain ⟨last, kept, again⟩ := later key middle held
  exact ⟨last, kept, follows.trans again⟩

variable {state : DurableState}

/-- A reconfiguration that is carried out keeps the leader of the epoch. -/
theorem requested_follows {assignment : PartitionAssignmentMetadata}
    {request : PartitionReconfiguration} (wellFormed : WellFormed assignment request)
    (keeps : KeepsLeader assignment request) : assignment.Follows (requested request) := by
  refine ⟨?_, wellFormed.1, ?_⟩
  · rcases keeps with grows | ⟨same, -⟩
    · exact grows.le
    · exact same.le
  · intro same
    rcases keeps with grows | ⟨-, leader⟩
    · exact absurd same grows.ne
    · exact leader

/-- What the commands have to bring along. Assignments that are stored as they come
follow the ones they replace, and the last epoch keeps its leader. -/
def CarriesLeaders (state : DurableState) : BrokerCommand → Prop
  | .metadataBootstrap _ assignments _ _ => state.streamDefinitions = ∅ →
    ∀ key assignment, state.partitionAssignments.get? key = some assignment →
      ∃ next, assignments.get? key = some next ∧ assignment.Follows next.normalize
  | .streamPartitionsUpdate stream assignments => state.GrowsStream stream assignments →
    ∀ key assignment next, state.partitionAssignments.get? key = some assignment →
      assignments.get? key = some next → assignment.Follows next.normalize
  | .partitionLeaderUpdate stream partition leaderId _ => ∀ assignment,
    state.partitionAssignments.get? (partitionKey stream partition) = some assignment →
      assignment.leaderEpoch < u64Max ∨ assignment.leaderEpoch = u64Max ∧
        assignment.leaderId = leaderId
  | _ => True

/-- One command. -/
theorem applyCommand_follows {command : BrokerCommand} (carries : state.CarriesLeaders command) :
    state.AssignmentsFollow (state.applyCommand command).1 := by
  intro key assignment found
  have changes := state.applyCommand_changes command key
  rw [found] at changes
  generalize (state.applyCommand command).1.partitionAssignments.get? key = after at changes ⊢
  cases changes with
  | same => exact ⟨assignment, rfl, .refl assignment⟩
  | normalized => exact ⟨_, rfl, assignment.normalize_follows⟩
  | bootstrapped unknown =>
    obtain ⟨next, held, follows⟩ := carries unknown key assignment found
    exact ⟨next.normalize, by rw [held, Option.map_some], follows⟩
  | grown grows carried => exact ⟨_, rfl, carries grows key assignment _ found carried⟩
  | reconfigured here reconfigures =>
    exact ⟨_, rfl, assignment.normalize_follows.trans
      (requested_follows reconfigures.wellFormed reconfigures.keeps)⟩
  | @led stream partition leaderId leaderEpoch _ here mayLead =>
    have epoch : leaderEpoch = saturatingSucc assignment.leaderEpoch := mayLead.1
    have generation := assignment.normalize_follows.generation
    rcases carries assignment (here ▸ found) with below | ⟨last, leader⟩
    · rw [saturatingSucc_of_lt below] at epoch
      have grows : assignment.leaderEpoch < leaderEpoch := by omega
      exact ⟨_, rfl, grows.le, generation, fun same => absurd same grows.ne⟩
    · have whole : saturatingSucc u64Max = u64Max := by decide
      have stays : assignment.leaderEpoch = leaderEpoch := by rw [epoch, last, whole]
      exact ⟨_, rfl, stays.le, generation, fun _ => leader⟩

/-! ### All runs -/

/-- The state after one command. -/
def next (state : DurableState) (command : BrokerCommand) : DurableState :=
  (state.applyCommand command).1

/-- The first state of a cluster: a new one that has been bootstrapped. -/
def Bootstrapped (state : DurableState) : Prop :=
  ∃ nodes streams assignments securityReferences featureGates,
    state = (new nodes).next
      (.metadataBootstrap streams assignments securityReferences featureGates)

/-- In the runs a guard admits, the epoch and the generation of a partition do not
decrease, and in all states with the same epoch it has the same leader. -/
def OneLeaderPerEpoch (guard : DurableState → BrokerCommand → Prop) : Prop :=
  ∀ start early late, Bootstrapped start → Reaches next guard start early →
    Reaches next guard early late → ∀ key before after,
      early.partitionAssignments.get? key = some before →
      late.partitionAssignments.get? key = some after → before.Follows after

/-- A run of commands that bring along what they have to keeps one leader per epoch,
whatever state it starts from. -/
theorem oneLeaderPerEpoch_carriesLeaders {early late : DurableState}
    (run : Reaches next CarriesLeaders early late) {key : String}
    {before after : PartitionAssignmentMetadata}
    (found : early.partitionAssignments.get? key = some before)
    (held : late.partitionAssignments.get? key = some after) : before.Follows after := by
  have follow : early.AssignmentsFollow late := by
    apply run.related (fun _ => True) (fun _ _ _ _ => trivial) AssignmentsFollow.refl
      AssignmentsFollow.trans _ trivial
    exact fun state command carries _ => applyCommand_follows carries
  obtain ⟨last, stored, follows⟩ := follow key before found
  rw [held] at stored
  obtain rfl := Option.some.inj stored
  exact follows

/-- A cluster with one partition, led by node 1. -/
def singlePartition : DurableState :=
  (new ∅).next (.metadataBootstrap [⟨⟨⟨"s", by decide⟩, ⟨1, by decide⟩, ⟨none, none⟩⟩, 1⟩]
    ((∅ : OrderedMap String PartitionAssignmentMetadata).insert "s:0"
      ⟨{1, 2}, {1, 2}, 1, .stable, 1, 5⟩) ∅ ∅)

/-- Node 2 takes over the partition. -/
theorem oneLeaderPerEpoch_takeover :
    (singlePartition.next (.partitionLeaderUpdate "s" 0 2 6)).partitionAssignments.get? "s:0" =
      some ⟨{1, 2}, {1, 2}, 1, .stable, 2, 6⟩ ∧
    PartitionAssignmentMetadata.Follows ⟨{1, 2}, {1, 2}, 1, .stable, 1, 5⟩
      ⟨{1, 2}, {1, 2}, 1, .stable, 2, 6⟩ := by
  have found : singlePartition.partitionAssignments.get? "s:0" =
      some ⟨{1, 2}, {1, 2}, 1, .stable, 1, 5⟩ := by decide +kernel
  have held : (singlePartition.next (.partitionLeaderUpdate "s" 0 2 6)).partitionAssignments.get?
      "s:0" = some ⟨{1, 2}, {1, 2}, 1, .stable, 2, 6⟩ := by decide +kernel
  have carries : singlePartition.CarriesLeaders (.partitionLeaderUpdate "s" 0 2 6) := by
    intro assignment stored
    obtain rfl := Option.some.inj stored
    exact .inl (by decide)
  exact ⟨held, oneLeaderPerEpoch_carriesLeaders (.step _ carries (.refl _)) found held⟩

/-- Giving stream `s` a second partition, with an assignment of the first one under
the epoch it has and another leader. -/
theorem partitions_update_replaces_leader : ¬ OneLeaderPerEpoch (fun _ _ => True) := by
  intro unique
  let named (partitions epoch : ℕ) (bounded : partitions < 2 ^ 32) : ClusterStream :=
    ⟨⟨⟨"s", by decide⟩, ⟨partitions, bounded⟩, ⟨none, none⟩⟩, epoch⟩
  let led (leader : ℕ) : OrderedMap String PartitionAssignmentMetadata :=
    (∅ : OrderedMap String PartitionAssignmentMetadata).insert "s:0"
      ⟨{1, 2}, {1, 2}, 1, .stable, leader, 5⟩
  let start := (new ∅).next (.metadataBootstrap [named 1 1 (by decide)] (led 1) ∅ ∅)
  let update := BrokerCommand.streamPartitionsUpdate (named 2 2 (by decide)) (led 2)
  have follows := unique start start (start.next update) ⟨∅, _, _, ∅, ∅, rfl⟩ (.refl start)
    (.step update trivial (.refl _)) "s:0" ⟨{1, 2}, {1, 2}, 1, .stable, 1, 5⟩
    ⟨{1, 2}, {1, 2}, 1, .stable, 2, 5⟩ (by decide +kernel) (by decide +kernel)
  exact absurd (follows.leader rfl) (by decide)

end DurableState

end Morrow
