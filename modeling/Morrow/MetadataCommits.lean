import Morrow.PartitionLeadership

/-!
# Commit watermarks in the metadata

Two maps follow the commits of a partition: the last commit and the offset the next
one has to name. They stay in step through every command, so that the watermark of a
partition moves one offset at a time, and a commit that is repeated is answered as
before.
-/

namespace Morrow

open OrderedMap Option

namespace DurableState

/-- The maps agree, and a partition without a commit starts at offset zero. -/
structure InStep (state : DurableState) : Prop where
  committed : ∀ key commit, state.partitionCommits.get? key = some commit →
    state.nextPartitionOffsets.get? key = some (saturatingSucc commit.highWatermark)
  fresh : ∀ key, state.partitionCommits.get? key = none → state.nextOffset key = 0

theorem inStep_new (nodes : OrderedMap ℕ String) : (new nodes).InStep where
  committed := fun _ _ found => by cases found
  fresh := fun _ _ => rfl

theorem noteNextOffset_get? (state : DurableState) (key tested : String) :
    (state.noteNextOffset key).nextPartitionOffsets.get? tested =
      if tested = key then some (state.nextOffset key)
      else state.nextPartitionOffsets.get? tested :=
  get?_insert _ _ _ _

variable {state : DurableState}

theorem InStep.noteNextOffset (inStep : state.InStep) (key : String) :
    (state.noteNextOffset key).InStep where
  committed := by
    intro tested commit found
    have known := inStep.committed tested commit found
    rw [noteNextOffset_get?]
    split
    · rename_i same
      rw [nextOffset, ← same, known, getD_some]
    · exact known
  fresh := by
    intro tested unknown
    have zero := inStep.fresh tested unknown
    rw [nextOffset, noteNextOffset_get?]
    split
    · rename_i same
      rw [getD_some, ← same, zero]
    · exact zero

theorem InStep.advanceCommit (inStep : state.InStep) (assignment : PartitionAssignmentMetadata)
    (request : PartitionCommit) :
    (state.advanceCommit assignment request).InStep where
  committed := by
    intro tested commit found
    simp only [DurableState.advanceCommit, get?_insert] at found ⊢
    split at found
    · rename_i same
      obtain rfl := some.inj found
      rw [if_pos same]
    · rename_i other
      rw [if_neg other]
      exact inStep.committed tested commit found
  fresh := by
    intro tested unknown
    simp only [DurableState.advanceCommit, nextOffset, get?_insert] at unknown ⊢
    split at unknown
    · cases unknown
    · rename_i other
      rw [if_neg other]
      exact inStep.fresh tested unknown

/-- What a commit can do: nothing, note the next offset, or commit it. It is answered
as a commit if the leader of the partition repeats its last commit or makes the next. -/
theorem partitionCommit_cases (state : DurableState) (request : PartitionCommit) :
    state.partitionCommit request = (state, .noop) ∨
      ∃ assignment, state.partitionAssignments.get?
          (partitionKey request.stream request.partition) = some assignment ∧
        MayCommit assignment request ∧
        (state.partitionCommit request =
            (state.noteNextOffset (partitionKey request.stream request.partition), .noop) ∨
          (∃ commit, state.partitionCommits.get?
              (partitionKey request.stream request.partition) = some commit ∧
            Repeats commit request ∧ state.partitionCommit request =
              (state.noteNextOffset (partitionKey request.stream request.partition),
                .partitionCommit request.offset request.leaderEpoch)) ∨
          state.nextOffset (partitionKey request.stream request.partition) = request.offset ∧
            state.partitionCommit request =
              ((state.noteNextOffset
                (partitionKey request.stream request.partition)).advanceCommit assignment request,
                .partitionCommit request.offset request.leaderEpoch)) := by
  simp only [partitionCommit]
  split
  · exact .inl rfl
  · rename_i assignment held
    split
    · exact .inl rfl
    · rename_i mayCommit
      refine .inr ⟨assignment, held, not_not.mp mayCommit, ?_⟩
      split
      · rename_i repeated
        cases found : state.partitionCommits.get?
            (partitionKey request.stream request.partition) with
        | none => simp [found] at repeated
        | some commit =>
          exact .inr (.inl ⟨commit, rfl, by simpa [found] using repeated, rfl⟩)
      · split
        · exact .inl rfl
        · split
          · exact .inl rfl
          · rename_i expected
            exact .inr (.inr ⟨not_not.mp expected, rfl⟩)

/-- The commands for other things leave both maps alone. -/
theorem applyCommand_commits (state : DurableState) {command : BrokerCommand}
    (other : ∀ request, command ≠ .partitionCommit request) :
    (state.applyCommand command).1.partitionCommits = state.partitionCommits ∧
      (state.applyCommand command).1.nextPartitionOffsets = state.nextPartitionOffsets := by
  rcases state.applyCommand_cases command with ⟨_, _, _, _, same⟩ |
    ⟨streams, assignments, references, gates, rfl⟩ | ⟨stream, assignments, rfl⟩ | ⟨request, rfl⟩
  · rw [same]
    exact ⟨rfl, rfl⟩
  · simp only [applyCommand, metadataBootstrap]
    split <;> exact ⟨rfl, rfl⟩
  · simp only [applyCommand, streamPartitionsUpdate]
    split <;> exact ⟨rfl, rfl⟩
  · exact absurd rfl (other request)

/-- A command is a commit, or it leaves both maps alone. -/
theorem commit_or_not (command : BrokerCommand) :
    (∃ request, command = .partitionCommit request) ∨
      ∀ request, command ≠ .partitionCommit request := by
  by_cases commit : ∃ request, command = .partitionCommit request
  · exact .inl commit
  · exact .inr (fun request same => commit ⟨request, same⟩)

theorem InStep.congr {before after : DurableState} (inStep : before.InStep)
    (commits : after.partitionCommits = before.partitionCommits)
    (offsets : after.nextPartitionOffsets = before.nextPartitionOffsets) : after.InStep where
  committed := by
    rw [commits, offsets]
    exact inStep.committed
  fresh := by
    intro key unknown
    rw [commits] at unknown
    rw [nextOffset, offsets]
    exact inStep.fresh key unknown

/-- One command keeps the maps in step. -/
theorem InStep.next (inStep : state.InStep) (command : BrokerCommand) :
    (state.next command).InStep := by
  rcases commit_or_not command with ⟨request, rfl⟩ | other
  · simp only [DurableState.next, applyCommand]
    rcases partitionCommit_cases state request with
      same | ⟨assignment, -, -, same | ⟨-, -, -, same⟩ | ⟨-, same⟩⟩
    · rwa [same]
    · rw [same]
      exact inStep.noteNextOffset _
    · rw [same]
      exact inStep.noteNextOffset _
    · rw [same]
      exact (inStep.noteNextOffset _).advanceCommit assignment request
  · obtain ⟨commits, offsets⟩ := applyCommand_commits state other
    exact inStep.congr commits offsets

/-- Any number of commands. -/
theorem InStep.commands (inStep : state.InStep) (commands : List BrokerCommand) :
    (commands.foldl DurableState.next state).InStep := by
  induction commands generalizing state with
  | nil => exact inStep
  | cons command commands ih => exact ih (inStep.next command)

/-! ### The watermark -/

def highWatermark (state : DurableState) (key : String) : Option ℕ :=
  (state.partitionCommits.get? key).map (·.highWatermark)

/-- The watermark stays, starts at zero or moves by one. -/
def WatermarkMoves (before after : Option ℕ) : Prop :=
  after = before ∨ before = none ∧ after = some 0 ∨
    ∃ watermark, before = some watermark ∧ after = some (watermark + 1)

theorem noteNextOffset_highWatermark (state : DurableState) (key tested : String) :
    (state.noteNextOffset key).highWatermark tested = state.highWatermark tested := rfl

theorem advanceCommit_highWatermark (state : DurableState)
    (assignment : PartitionAssignmentMetadata) (request : PartitionCommit) (tested : String) :
    (state.advanceCommit assignment request).highWatermark tested =
      if tested = partitionKey request.stream request.partition then some request.offset
      else state.highWatermark tested := by
  simp only [highWatermark, advanceCommit, get?_insert]
  split <;> rfl

/-- The watermark is not the last word. -/
def RoomAbove (watermark : Option ℕ) : Prop := ∀ value ∈ watermark, value < u64Max

variable {key : String}

/-- The offset that is committed next moves the watermark as it should. -/
theorem InStep.nextOffset_moves (inStep : state.InStep)
    (room : RoomAbove (state.highWatermark key)) :
    WatermarkMoves (state.highWatermark key) (some (state.nextOffset key)) := by
  unfold highWatermark at *
  cases found : state.partitionCommits.get? key with
  | none =>
    rw [inStep.fresh key found]
    exact .inr (.inl ⟨rfl, rfl⟩)
  | some commit =>
    have below : commit.highWatermark < u64Max := room _ (by rw [found]; rfl)
    rw [nextOffset, inStep.committed key commit found, saturatingSucc_of_lt below]
    exact .inr (.inr ⟨commit.highWatermark, rfl, rfl⟩)

/-- One command moves the watermark of a partition by at most one. -/
theorem InStep.watermarkMoves (inStep : state.InStep) (command : BrokerCommand)
    (room : RoomAbove (state.highWatermark key)) :
    WatermarkMoves (state.highWatermark key) ((state.next command).highWatermark key) := by
  rcases commit_or_not command with ⟨request, rfl⟩ | other
  · simp only [DurableState.next, applyCommand]
    rcases partitionCommit_cases state request with
      same | ⟨assignment, -, -, same | ⟨-, -, -, same⟩ | ⟨expected, same⟩⟩
    · rw [same]
      exact .inl rfl
    · rw [same]
      exact .inl (noteNextOffset_highWatermark state _ key)
    · rw [same]
      exact .inl (noteNextOffset_highWatermark state _ key)
    · rw [same, advanceCommit_highWatermark]
      split
      · rename_i here
        subst here
        rw [← expected]
        exact inStep.nextOffset_moves room
      · exact .inl (noteNextOffset_highWatermark state _ key)
  · rw [highWatermark, highWatermark, DurableState.next, (applyCommand_commits state other).1]
    exact .inl rfl

/-! ### Repeating a commit -/

/-- A note that is there already changes nothing. -/
theorem noteNextOffset_eq_self {offset : ℕ}
    (known : state.nextPartitionOffsets.get? key = some offset) :
    state.noteNextOffset key = state := by
  have same : state.nextPartitionOffsets.insert key (state.nextOffset key) =
      state.nextPartitionOffsets := by
    apply ext_get?
    intro tested
    rw [get?_insert]
    split
    · rename_i here
      rw [here, nextOffset, known, getD_some]
    · rfl
  rw [noteNextOffset, same]

variable {request : PartitionCommit}

/-- The last commit, made again by the leader, is answered and changes nothing. -/
theorem InStep.partitionCommit_repeated (inStep : state.InStep)
    {assignment : PartitionAssignmentMetadata} {commit : PartitionCommitMetadata}
    (held : state.partitionAssignments.get?
      (partitionKey request.stream request.partition) = some assignment)
    (mayCommit : MayCommit assignment request)
    (found : state.partitionCommits.get?
      (partitionKey request.stream request.partition) = some commit)
    (repeats : Repeats commit request) :
    state.partitionCommit request =
      (state, .partitionCommit request.offset request.leaderEpoch) := by
  have noted := noteNextOffset_eq_self (inStep.committed _ _ found)
  simp only [partitionCommit, held, mayCommit, found, repeats, noted, not_true_eq_false, if_false,
    any_some, decide_true, if_true]

/-- A commit that was answered as one named the leader and its epoch, and is answered
the same way again. -/
theorem InStep.partitionCommit_accepted (inStep : state.InStep) {watermark epoch : ℕ}
    (accepted : (state.partitionCommit request).2 = .partitionCommit watermark epoch) :
    (∃ assignment, state.partitionAssignments.get?
        (partitionKey request.stream request.partition) = some assignment ∧
      assignment.leaderId = request.leaderId ∧ assignment.leaderEpoch = request.leaderEpoch) ∧
      (state.partitionCommit request).1.partitionCommit request =
        ((state.partitionCommit request).1, .partitionCommit watermark epoch) := by
  have kept := inStep.next (.partitionCommit request)
  simp only [DurableState.next, applyCommand] at kept
  rcases partitionCommit_cases state request with
    same | ⟨assignment, held, mayCommit, same | ⟨commit, found, repeats, same⟩ | ⟨expected, same⟩⟩
  · rw [same] at accepted
    cases accepted
  · rw [same] at accepted
    cases accepted
  all_goals
    rw [same] at accepted kept ⊢
    cases accepted
    refine ⟨⟨assignment, held, mayCommit.1, mayCommit.2.1⟩, ?_⟩
  · exact kept.partitionCommit_repeated held mayCommit found repeats
  · exact kept.partitionCommit_repeated held mayCommit (get?_insert_self _ _ _) ⟨rfl, rfl, rfl, rfl⟩

/-! ### All sequences of commands -/

/-- The next offset lies one above the watermark; a command moves the watermark by at
most one; an accepted commit names the leader and epoch assigned at that moment; and
made again at once it changes nothing and is answered the same. -/
structure CommitsContiguous (state : DurableState) : Prop where
  contiguous : ∀ key commit, state.partitionCommits.get? key = some commit →
    commit.highWatermark < u64Max →
    state.nextPartitionOffsets.get? key = some (commit.highWatermark + 1)
  moves : ∀ command key, RoomAbove (state.highWatermark key) →
    WatermarkMoves (state.highWatermark key) ((state.next command).highWatermark key)
  leader : ∀ request watermark epoch,
    (state.applyCommand (.partitionCommit request)).2 = .partitionCommit watermark epoch →
    ∃ assignment, state.partitionAssignments.get?
        (partitionKey request.stream request.partition) = some assignment ∧
      assignment.leaderId = request.leaderId ∧ assignment.leaderEpoch = request.leaderEpoch
  repeated : ∀ request watermark epoch,
    (state.applyCommand (.partitionCommit request)).2 = .partitionCommit watermark epoch →
    (state.next (.partitionCommit request)).applyCommand (.partitionCommit request) =
      (state.next (.partitionCommit request), .partitionCommit watermark epoch)

/-- After every sequence of commands. -/
theorem commitsContiguous_commands (nodes : OrderedMap ℕ String) (commands : List BrokerCommand) :
    CommitsContiguous (commands.foldl next (new nodes)) := by
  have inStep := (inStep_new nodes).commands commands
  refine ⟨?_, ?_, ?_, ?_⟩
  · intro key commit found below
    rw [inStep.committed key commit found, saturatingSucc_of_lt below]
  · exact fun command key room => inStep.watermarkMoves command room
  · exact fun request watermark epoch accepted => (inStep.partitionCommit_accepted accepted).1
  · exact fun request watermark epoch accepted => (inStep.partitionCommit_accepted accepted).2

end DurableState

end Morrow
