import Morrow.PartitionLeadership

/-!
# Joining the commit set

A replica that has not taken part in commits may join the commit set of a partition
only after it was added, has caught up and is being activated. The command that lets
it join names the committed offset and checksum it was compared with. The metadata
compares them for a change into the activating phase only, and it does not look at
the phase the partition is in; nor does it keep commands that carry whole assignments
from replacing those of a partition that exists. Joins are fenced when the commands
follow the protocol by themselves: within a generation the members stay, and the next
generation activates the candidate that has caught up or leaves members out.
-/

namespace Morrow

open GuardedRuns OrderedMap Option

/-- The node for which a join is under way. -/
def PartitionReconfigurationPhase.joining : PartitionReconfigurationPhase → Option ℕ
  | .catchingUp candidate _ _ => some candidate
  | .activating candidate => some candidate
  | _ => none

namespace DurableState

/-- The command names what the partition has committed. -/
def CommandNames (committed : Option PartitionCommitMetadata) : BrokerCommand → Prop
  | .partitionReconfiguration request => NamesCommitted committed request
  | _ => False

/-- A node that becomes a member or the leader without having been a member is the one
whose join is under way, and the command names what is committed. Some member stays. -/
structure FencedJoin (committed : Option PartitionCommitMetadata) (command : BrokerCommand)
    (before after : PartitionAssignmentMetadata) : Prop where
  joins : ∀ node, node ∈ after.activeCommitSet ∨ after.leaderId = node ∧ before.leaderId ≠ node →
    node ∉ before.activeCommitSet →
    before.phase.joining = some node ∧ CommandNames committed command
  shares : (after.activeCommitSet ∩ before.activeCommitSet).Nonempty

/-- In the runs a guard admits, replicas join commit sets only through the fenced
transition, and consecutive commit sets share a member. -/
def JoinsFenced (guard : DurableState → BrokerCommand → Prop) : Prop :=
  ∀ nodes state command, Reaches next guard (new nodes) state →
    guard state command → ∀ key before after,
      state.partitionAssignments.get? key = some before →
      (state.next command).partitionAssignments.get? key = some after →
      FencedJoin (state.partitionCommits.get? key) command before after

/-! ### The protocol -/

/-- The moves of a partition from one phase and generation to the next. -/
inductive Moves (before : PartitionAssignmentMetadata) (request : PartitionReconfiguration) : Prop
  | within (generation : request.generation = before.replicaSetGeneration)
      (members : request.activeCommitSet = before.activeCommitSet)
  | activates (candidate : ℕ) (generation : request.generation = before.replicaSetGeneration + 1)
      (caughtUp : before.phase.joining = some candidate)
      (phase : request.phase = .activating candidate)
      (members : request.activeCommitSet = insert candidate before.activeCommitSet)
  | leaves (generation : request.generation = before.replicaSetGeneration + 1)
      (members : request.activeCommitSet ⊆ before.activeCommitSet)

/-- Assignments for partitions that have none yet, each with a member. -/
def BringsNew (state : DurableState)
    (assignments : OrderedMap String PartitionAssignmentMetadata) : Prop :=
  ∀ key after, assignments.get? key = some after →
    state.partitionAssignments.get? key = none ∧ after.normalize.activeCommitSet.Nonempty

/-- A command that follows the protocol: whole assignments are carried for new partitions
only, and a request that passes the checks is one of the moves. -/
def FollowsProtocol (state : DurableState) : BrokerCommand → Prop
  | .metadataBootstrap _ assignments _ _ =>
    state.streamDefinitions = ∅ → state.BringsNew assignments
  | .streamPartitionsUpdate stream assignments =>
    state.GrowsStream stream assignments → state.BringsNew assignments
  | .partitionReconfiguration request => ∀ assignment,
    state.partitionAssignments.get? (partitionKey request.stream request.partition) =
      some assignment → state.Reconfigures assignment request → Moves assignment request
  | _ => True

/-! ### Every partition has members -/

/-- Every assigned partition has a member and a generation. -/
def Staffed (state : DurableState) : Prop :=
  ∀ key assignment, state.partitionAssignments.get? key = some assignment →
    assignment.activeCommitSet.Nonempty ∧ assignment.replicaSetGeneration ≠ 0

variable {assignment : PartitionAssignmentMetadata} {state : DurableState}

theorem normalize_of_staffed (members : assignment.activeCommitSet.Nonempty)
    (generation : assignment.replicaSetGeneration ≠ 0) : assignment.normalize = assignment := by
  simp only [PartitionAssignmentMetadata.normalize, members.ne_empty, generation, if_false]

theorem normalize_generation : assignment.normalize.replicaSetGeneration ≠ 0 := by
  simp only [PartitionAssignmentMetadata.normalize]
  split <;> omega

variable {command : BrokerCommand} {key : String} {before after : PartitionAssignmentMetadata}

/-- One command of the protocol leaves every partition a member. -/
theorem Staffed.next (staffed : state.Staffed) (follows : state.FollowsProtocol command) :
    (state.next command).Staffed := by
  intro key assignment held
  have changes := state.applyCommand_changes command key
  have before := staffed key
  rw [DurableState.next] at held
  rw [held] at changes
  generalize state.partitionAssignments.get? key = stored at changes before
  generalize after : some assignment = last at changes
  cases changes with
  | same => exact before assignment after.symm
  | normalized found =>
    obtain rfl := some.inj after
    have known := before found rfl
    rwa [normalize_of_staffed known.1 known.2]
  | bootstrapped unknown =>
    obtain ⟨raw, carried, rfl⟩ := map_eq_some_iff.mp after.symm
    exact ⟨(follows unknown key raw carried).2, normalize_generation⟩
  | grown grows carried =>
    obtain rfl := some.inj after
    exact ⟨(follows grows key _ carried).2, normalize_generation⟩
  | led here mayLead =>
    obtain rfl := some.inj after
    have known := before _ rfl
    rwa [normalize_of_staffed known.1 known.2]
  | reconfigured here reconfigures =>
    obtain rfl := some.inj after
    have known := before _ rfl
    rw [normalize_of_staffed known.1 known.2] at reconfigures
    have wellFormed := reconfigures.wellFormed
    exact ⟨Finset.nonempty_iff_ne_empty.mpr wellFormed.2.2.1,
      (Nat.pos_of_ne_zero known.2 |>.trans_le wellFormed.1).ne.symm⟩

theorem Staffed.reached {nodes : OrderedMap ℕ String}
    (run : Reaches DurableState.next FollowsProtocol (new nodes) state) : state.Staffed :=
  run.invariant Staffed (fun _ _ follows staffed => staffed.next follows)
    (fun _ _ found => by cases found)

/-! ### One command -/

/-- The members stay, and one of them leads if the leader changes. -/
theorem fencedJoin_of_same {committed : Option PartitionCommitMetadata}
    (members : before.activeCommitSet.Nonempty)
    (same : after.activeCommitSet = before.activeCommitSet)
    (leader : after.leaderId = before.leaderId ∨ after.leaderId ∈ before.activeCommitSet) :
    FencedJoin committed command before after := by
  refine ⟨?_, by rwa [same, Finset.inter_self]⟩
  rintro node (member | ⟨rfl, moved⟩) outside
  · exact absurd (same ▸ member) outside
  · exact absurd (leader.resolve_left (Ne.symm moved)) outside

/-- A request that passes the checks and is a move of the protocol is fenced. -/
theorem Moves.fencedJoin {request : PartitionReconfiguration} (moves : Moves before request)
    (members : before.activeCommitSet.Nonempty) (reconfigures : state.Reconfigures before request) :
    FencedJoin (state.partitionCommits.get? (partitionKey request.stream request.partition))
      (.partitionReconfiguration request) before (requested request) := by
  have leads : request.leaderId ∈ request.activeCommitSet := reconfigures.wellFormed.2.2.2.2.2.1
  cases moves with
  | within _ same => exact fencedJoin_of_same members same (.inr (same ▸ leads))
  | activates candidate _ caughtUp phase joined =>
    constructor
    · intro node joins outside
      have member : node ∈ request.activeCommitSet := by
        rcases joins with member | ⟨rfl, -⟩
        · exact member
        · exact leads
      rw [joined, Finset.mem_insert] at member
      rw [caughtUp, member.resolve_right outside]
      exact ⟨rfl, reconfigures.names (by rw [phase]; rfl)⟩
    · rw [requested, joined, Finset.inter_eq_right.mpr (Finset.subset_insert _ _)]
      exact members
  | leaves _ left =>
    constructor
    · rintro node (member | ⟨rfl, -⟩) outside
      · exact absurd (left member) outside
      · exact absurd (left leads) outside
    · rw [requested, Finset.inter_eq_left.mpr left]
      exact Finset.nonempty_iff_ne_empty.mpr reconfigures.wellFormed.2.2.1

theorem Staffed.fencedJoin (staffed : state.Staffed)
    (found : state.partitionAssignments.get? key = some before)
    (follows : state.FollowsProtocol command)
    (held : (state.next command).partitionAssignments.get? key = some after) :
    FencedJoin (state.partitionCommits.get? key) command before after := by
  have changes := state.applyCommand_changes command key
  rw [DurableState.next] at held
  rw [found, held] at changes
  obtain ⟨members, generation⟩ := staffed key before found
  have normal := normalize_of_staffed members generation
  generalize last : some after = stored at changes
  cases changes with
  | same =>
    obtain rfl := some.inj last
    exact fencedJoin_of_same members rfl (.inl rfl)
  | normalized =>
    rw [normal] at last
    obtain rfl := some.inj last
    exact fencedJoin_of_same members rfl (.inl rfl)
  | bootstrapped unknown =>
    obtain ⟨raw, carried, rfl⟩ := map_eq_some_iff.mp last.symm
    rw [(follows unknown key raw carried).1] at found
    cases found
  | grown grows carried =>
    rw [(follows grows key _ carried).1] at found
    cases found
  | led here mayLead =>
    -- Whoever a member lets lead is a member.
    obtain rfl := some.inj last
    rw [normal] at mayLead ⊢
    exact fencedJoin_of_same members rfl (.inr mayLead.2.1)
  | reconfigured here reconfigures =>
    obtain rfl := some.inj last
    subst here
    rw [normal] at reconfigures
    exact (follows before found reconfigures).fencedJoin members reconfigures

/-! ### All runs -/

/-- In a run of commands that follow the protocol every join is fenced, and consecutive
commit sets share a member. -/
theorem joinsFenced_followsProtocol {nodes : OrderedMap ℕ String}
    (run : Reaches next FollowsProtocol (new nodes) state) (follows : state.FollowsProtocol command)
    (found : state.partitionAssignments.get? key = some before)
    (held : (state.next command).partitionAssignments.get? key = some after) :
    FencedJoin (state.partitionCommits.get? key) command before after :=
  (Staffed.reached run).fencedJoin found follows held

/-- The only partition of stream "orders", with replicas 1 and 2 and the given members. -/
def ordersOn (members : Finset ℕ) : BrokerCommand :=
  .metadataBootstrap
    [⟨⟨⟨"orders", validStreamName_orders⟩, ⟨1, PartitionId.one_bounded⟩, ⟨none, none⟩⟩, 1⟩]
    ((∅ : OrderedMap String PartitionAssignmentMetadata).insert "orders:0"
      ⟨{1, 2}, members, 1, .stable, 1, 1⟩) ∅ ∅

/-- Node 1 is the only member; it has committed a record, and node 2 is catching up. -/
def caughtUp : DurableState :=
  (((new ∅).next (ordersOn {1})).next (.partitionCommit ⟨"orders", 0, 0, 7, 1, 1⟩)).next
    (.partitionReconfiguration ⟨"orders", 0, 1, .catchingUp 2 0 7, {1, 2}, {1}, 1, 1, none, none⟩)

/-- The request that activates node 2, with what is committed. -/
def activation : PartitionReconfiguration :=
  ⟨"orders", 0, 2, .activating 2, {1, 2}, {1, 2}, 1, 2, some 0, some 7⟩

/-- Node 2 joins when it is activated and leads once the partition is stable again. -/
theorem joinsFenced_activated :
    FencedJoin (some ⟨1, 0, 7, 1, 1⟩) (.partitionReconfiguration activation)
        ⟨{1, 2}, {1}, 1, .catchingUp 2 0 7, 1, 1⟩ ⟨{1, 2}, {1, 2}, 2, .activating 2, 1, 2⟩ ∧
      FencedJoin (some ⟨1, 0, 7, 1, 1⟩) (.partitionReconfiguration
          ⟨"orders", 0, 2, .stable, {1, 2}, {1, 2}, 2, 3, none, none⟩)
        ⟨{1, 2}, {1, 2}, 2, .activating 2, 1, 2⟩ ⟨{1, 2}, {1, 2}, 2, .stable, 2, 3⟩ := by
  have assigned : caughtUp.partitionAssignments.get? "orders:0" =
      some ⟨{1, 2}, {1}, 1, .catchingUp 2 0 7, 1, 1⟩ := by decide +kernel
  have joined : (caughtUp.next (.partitionReconfiguration activation)).partitionAssignments.get?
      "orders:0" = some ⟨{1, 2}, {1, 2}, 2, .activating 2, 1, 2⟩ := by decide +kernel
  have bootstraps : FollowsProtocol (new ∅) (ordersOn {1}) := by
    intro _ key after carried
    rcases get?_insert_eq_some.mp carried with ⟨-, rfl⟩ | ⟨-, absent⟩
    · exact ⟨rfl, by decide⟩
    · cases absent
  have run : ∀ {last}, Reaches next FollowsProtocol caughtUp last →
      Reaches next FollowsProtocol (new ∅) last := by
    intro last later
    refine .step _ bootstraps (.step (.partitionCommit _) trivial (.step _ ?_ later))
    intro assignment found _
    obtain rfl : assignment = ⟨{1, 2}, {1}, 1, .stable, 1, 1⟩ :=
      some.inj (found.symm.trans (by decide +kernel))
    exact .within rfl rfl
  have activates : caughtUp.FollowsProtocol (.partitionReconfiguration activation) := by
    intro assignment found _
    obtain rfl := some.inj (found.symm.trans assigned)
    exact .activates 2 rfl rfl rfl (by decide)
  refine ⟨joinsFenced_followsProtocol (run (.refl _)) activates assigned joined,
    joinsFenced_followsProtocol (run (.step _ activates (.refl _))) ?_ joined
      (by decide +kernel)⟩
  intro assignment found _
  obtain rfl := some.inj (found.symm.trans joined)
  exact .within rfl rfl

/-- A stable partition of nodes 1 and 2 is handed to node 3 in one command. -/
theorem reconfiguration_skips_catch_up : ¬ JoinsFenced (fun _ _ => True) := by
  intro fenced
  let request : PartitionReconfiguration := ⟨"orders", 0, 2, .stable, {3}, {3}, 3, 2, none, none⟩
  have join := fenced ∅ ((new ∅).next (ordersOn {1, 2})) (.partitionReconfiguration request)
    (.step _ trivial (.refl _)) trivial "orders:0" ⟨{1, 2}, {1, 2}, 1, .stable, 1, 1⟩
    ⟨{3}, {3}, 2, .stable, 3, 2⟩ (by decide +kernel) (by decide +kernel)
  have joining := (join.joins 3 (.inl (by decide)) (by decide)).1
  cases joining

end DurableState

end Morrow
