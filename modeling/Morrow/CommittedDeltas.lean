import Morrow.RaftStateMachine

/-!
# The deltas of committed entries

A broker follows the state machine through the deltas of the applied entries, of
which the last 4096 are kept. It asks for those after the index it has come to, and is
sent to a full reconciliation when the first of them is no longer there. A snapshot
that is installed and a restart empty the buffer.
-/

namespace Morrow

open GuardedRuns List

/-- What a broker is told about the entries after its index. -/
inductive DeltaBatch
  | incremental (deltas : List CommittedDelta)
  | fullReconciliation

namespace StateMachineStore

def deltasAfter (store : StateMachineStore) (after : Option ℕ) : DeltaBatch :=
  if store.appliedIndex = 0 then .incremental []
  else if ∃ known ∈ after, store.appliedIndex - 1 ≤ known then .incremental []
  else
    let incremental := store.deltas.filter fun delta => ∀ known ∈ after, known < delta.logId.index
    let expected := (after.map saturatingSucc).getD 0
    if incremental.head?.map (·.logId.index) = some expected then .incremental incremental
    else .fullReconciliation

/-- The deltas of all entries of a history, none of them dropped. -/
def History.deltas (history : History) : List CommittedDelta :=
  (applyEach history.base history.entries).2

/-- The index after the given one, and 0 after none. -/
def following (index : Option ℕ) : ℕ := index.elim 0 (· + 1)

variable (state : DurableState)

/-- The index after the last applied entry. -/
def stop : ℕ := following (state.lastApplied.map (·.index))

def indices (deltas : List CommittedDelta) : List ℕ := deltas.map (·.logId.index)

/-- Entries are applied without a gap. -/
def Consecutive : Call → Prop
  | .apply entries => entries.map (·.logId.index) =
    List.Ico (stop state) (stop state + entries.length)
  | _ => True

def Action.made : Action → Call
  | .call made => made
  | .crash made _ => made

/-- What the consensus library does, under a condition on its calls. -/
def Continues (json : StateJson) (guard : Call → Prop) (machine : Machine) (action : Action) :
    Prop :=
  machine.InOrder json action ∧ Consecutive machine.store.data.state action.made ∧ guard action.made

/-- A broker that asks for what follows an index it has applied gets a delta of the
history for each index up to the last applied one, or is told to reconcile. -/
def Answers (machine : Machine) : Prop :=
  ∀ after, following after ≤ stop machine.store.data.state →
    machine.store.deltasAfter after = .fullReconciliation ∨
      ∃ deltas, machine.store.deltasAfter after = .incremental deltas ∧
        deltas.Sublist machine.history.deltas ∧
        indices deltas = List.Ico (following after) (stop machine.store.data.state)

/-- A call takes the store to no index that has no successor. -/
def Bounded (json : StateJson) : Call → Prop
  | .apply entries => ∀ entry ∈ entries, entry.logId.index < u64Max
  | .buildSnapshot => True
  | .installSnapshot _ snapshot => ∀ state ∈ json.read snapshot,
    ∀ last ∈ state.lastApplied, last.index < u64Max

/-- The buffer holds the deltas of the last entries. -/
structure Buffered (machine : Machine) : Prop where
  applied : machine.store.appliedIndex = nextIndex machine.store.data.state.lastApplied
  bounded : stop machine.store.data.state ≤ u64Max
  kept : machine.store.deltas.Sublist machine.history.deltas
  gapless : ∃ first ≤ stop machine.store.data.state,
    indices machine.store.deltas = List.Ico first (stop machine.store.data.state)

theorem nextIndex_eq {state : DurableState} (bounded : stop state ≤ u64Max) :
    nextIndex state.lastApplied = stop state := by
  rw [stop] at *
  cases last : state.lastApplied with
  | none => rfl
  | some logId =>
    rw [last] at bounded
    exact saturatingSucc_of_lt bounded

theorem Buffered.answers {machine : Machine} (buffered : Buffered machine) : Answers machine := by
  intro after known
  obtain ⟨applied, bounded, kept, first, _, gapless⟩ := buffered
  rw [nextIndex_eq bounded] at applied
  have expected : (after.map saturatingSucc).getD 0 = following after := by
    cases after with
    | none => rfl
    | some index => exact saturatingSucc_of_lt (known.trans bounded)
  have past (delta : CommittedDelta) :
      (∀ known ∈ after, known < delta.logId.index) ↔ following after ≤ delta.logId.index := by
    cases after with
    | none => simp [following]
    | some index => simp [following]
  simp only [deltasAfter, applied, expected, past]
  split
  · exact .inr ⟨[], rfl, nil_sublist _, (List.Ico.eq_nil_of_le (by omega)).symm⟩
  · split
    · rename_i reached
      obtain ⟨index, rfl, far⟩ := reached
      have all : stop machine.store.data.state ≤ index + 1 := by omega
      exact .inr ⟨[], rfl, nil_sublist _, (List.Ico.eq_nil_of_le all).symm⟩
    · split
      · rename_i begins
        refine .inr ⟨_, rfl, filter_sublist.trans kept, ?_⟩
        -- The first delta has the index asked for, so the buffer reaches back to it.
        obtain ⟨head, isHead, index⟩ := Option.map_eq_some_iff.mp begins
        have held : head.logId.index ∈ indices machine.store.deltas :=
          mem_map_of_mem (mem_of_mem_filter (mem_of_head? isHead))
        rw [gapless, index, List.Ico.mem] at held
        have later := List.Ico.filter_le first (stop machine.store.data.state) (following after)
        rw [max_eq_right held.1, ← gapless, indices, filter_map] at later
        exact later
      · exact .inl rfl

/-! ### Runs -/

theorem deltas_append (first second : List Entry) :
    (applyEach state (first ++ second)).2 =
      (applyEach state first).2 ++ (applyEach (applyEach state first).1 second).2 := by
  induction first generalizing state with
  | nil => rfl
  | cons entry first ih => exact congrArg _ (ih _)

theorem indices_applyEach (entries : List Entry) :
    indices (applyEach state entries).2 = entries.map (·.logId.index) := by
  induction entries generalizing state with
  | nil => rfl
  | cons entry entries ih => exact congrArg _ (ih _)

theorem stop_applyEach {state : DurableState} {entries : List Entry}
    (consecutive : Consecutive state (.apply entries)) :
    stop (applyEach state entries).1 = stop state + entries.length := by
  rw [stop, applyEach_lastApplied]
  rcases eq_nil_or_concat entries with rfl | ⟨front, final, rfl⟩
  · rfl
  · simp only [Consecutive, concat_eq_append, map_append, length_append,
      length_singleton, ← Nat.add_assoc] at consecutive ⊢
    rw [List.Ico.succ_top (Nat.le_add_right _ _)] at consecutive
    have last := (append_inj' consecutive rfl).2
    simp only [map_cons, map_nil, cons.injEq, and_true] at last
    simp [following, last]

theorem drop_ico (first stop count : ℕ) :
    (List.Ico first stop).drop count = List.Ico (first + count) stop := by
  rw [List.Ico, List.Ico, drop_range', Nat.mul_one, Nat.sub_sub]

variable {json : StateJson} {nodes : OrderedMap ℕ String} {machine : Machine}

theorem Buffered.call {call : Call} (buffered : Buffered machine)
    (state : machine.store.data.state = machine.history.state)
    (consecutive : Consecutive machine.store.data.state call) (bounded : Bounded json call) :
    Buffered ⟨machine.store.call json call, machine.history.call json call⟩ := by
  obtain ⟨applied, below, kept, first, start, gapless⟩ := buffered
  cases call with
  | apply entries =>
    have stops := stop_applyEach consecutive
    constructor
    · simp only [StateMachineStore.call, apply, applyEntriesAfter_none]
      cases last : (applyEach machine.store.data.state entries).1.lastApplied with
      | none =>
        rw [applyEach_lastApplied, Option.or_eq_none_iff] at last
        rw [applied, last.2]
      | some logId => rfl
    · simp only [StateMachineStore.call, apply_data, stop, applyEach_lastApplied]
      cases found : entries.getLast? with
      | none => exact below
      | some entry => exact bounded entry (mem_of_getLast? found)
    · simp only [StateMachineStore.call, apply, applyEntriesAfter_none, History.call,
        History.deltas, deltas_append]
      rw [state]
      exact (drop_sublist _ _).trans (kept.append (List.Sublist.refl _))
    · simp only [StateMachineStore.call, apply, applyEntriesAfter_none, stops, indices,
        map_drop, map_append]
      rw [← indices, ← indices, gapless, indices_applyEach, consecutive,
        List.Ico.append_consecutive start (Nat.le_add_right _ _), drop_ico]
      refine ⟨_, ?_, rfl⟩
      have held := congrArg length gapless
      have added := congrArg length (indices_applyEach machine.store.data.state entries)
      simp only [indices, length_map, List.Ico.length, length_append] at held added ⊢
      omega
  | buildSnapshot => exact ⟨applied, below, kept, first, start, gapless⟩
  | installSnapshot metadata snapshot =>
    simp only [StateMachineStore.call, installSnapshot, History.call]
    cases read : json.read snapshot with
    | none => exact ⟨applied, below, kept, first, start, gapless⟩
    | some installed =>
      refine ⟨rfl, ?_, nil_sublist _, _, le_rfl, (List.Ico.self_empty).symm⟩
      rw [stop]
      cases last : installed.lastApplied with
      | none => exact Nat.zero_le _
      | some logId => exact bounded installed read logId last

theorem Buffered.next {action : Action}
    (continues : Continues json (Bounded json) machine action)
    (held : machine.store.Holds json nodes machine.history ∧ Buffered machine) :
    (machine.next json nodes action).store.Holds json nodes
      (machine.next json nodes action).history ∧ Buffered (machine.next json nodes action) := by
  obtain ⟨inOrder, consecutive, bounded⟩ := continues
  obtain ⟨holds, buffered⟩ := held
  have later := Machine.holds_next json nodes inOrder holds
  refine ⟨later, ?_⟩
  cases action with
  | call call => exact buffered.call holds.state consecutive bounded
  | crash call writes =>
    cases left : (machine.store.disks json call)[writes]? with
    | none => simpa only [Machine.next, left, Option.map_none] using buffered
    | some disk =>
      obtain ⟨reopened, opened, _⟩ := holds.crash inOrder left
      simp only [Machine.next, left, Option.map_some, opened] at later ⊢
      obtain ⟨data, _, returned⟩ := bind_eq_ok.mp opened
      obtain rfl := Except.ok.inj returned
      refine ⟨rfl, ?_, nil_sublist _, _, le_rfl, (List.Ico.self_empty).symm⟩
      -- The state is that before or after the call.
      rw [later.state]
      split
      · rw [← holds.state]
        exact buffered.bounded
      · rw [← (holds.call inOrder).state]
        exact (buffered.call holds.state consecutive bounded).bounded

/-- In every run of consecutive entries without an index at the limit, a broker gets all
deltas it lacks, or is told to start over. -/
theorem deltas_complete
    (run : Reaches (Machine.next json nodes) (Continues json (Bounded json)) (Machine.fresh nodes)
      machine) : Answers machine := by
  have held : machine.store.Holds json nodes machine.history ∧ Buffered machine := by
    refine run.invariant (fun machine => machine.store.Holds json nodes machine.history ∧
      Buffered machine) (fun _ _ continues held => Buffered.next continues held) ?_
    exact ⟨⟨rfl, rfl, Behind.nil _⟩, rfl, Nat.zero_le _, nil_sublist _, 0, le_rfl, rfl⟩
  exact held.2.answers

/-- Entries are applied, the store stops behind the next one and loses its deltas, and
goes on. -/
theorem deltas_complete_restarted :
    let machine := [Action.call (.apply [blankEntry, deleteEntry 1]),
      .crash (.apply [deleteEntry 2]) 1, .call (.apply [deleteEntry 3])].foldl
        (Machine.next emptyJson ∅) (Machine.fresh ∅)
    indices machine.store.deltas = [3] ∧ Answers machine := by
  refine ⟨by decide +kernel, @deltas_complete emptyJson ∅ _ ?_⟩
  refine .step (.call (.apply [blankEntry, deleteEntry 1])) ⟨⟨by decide, by decide⟩, rfl,
    forall_mem_cons.mpr ⟨by decide, forall_mem_singleton.mpr (by decide)⟩⟩ ?_
  refine .step (.crash (.apply [deleteEntry 2]) 1)
    ⟨⟨by decide, by decide⟩, rfl, forall_mem_singleton.mpr (by decide)⟩ ?_
  refine .step (.call (.apply [deleteEntry 3]))
    ⟨⟨by decide, by decide⟩, rfl, forall_mem_singleton.mpr (by decide)⟩ ?_
  exact .refl _

/-- At the largest index the last applied entry is neither handed out nor reconciled. -/
theorem last_delta_skipped : ∃ machine,
    Reaches (Machine.next emptyJson ∅) (Continues emptyJson fun _ => True) (Machine.fresh ∅)
      machine ∧ ¬ Answers machine := by
  let metadata : SnapshotMeta := ⟨none, (DurableState.new ∅).lastMembership⟩
  have read : emptyJson.read (emptyText u64Max) = some (emptyState u64Max) := by decide +kernel
  refine ⟨_, .step (.call (.installSnapshot metadata (emptyText u64Max)))
    ⟨fun _ _ _ held => (by cases held), trivial, trivial⟩ (.refl _), fun answers => ?_⟩
  simp only [Machine.next, call, installSnapshot, History.call, read] at answers
  rcases answers (some (u64Max - 1)) (by decide) with full | ⟨deltas, answered, _, all⟩
  · cases full
  · obtain rfl := DeltaBatch.incremental.inj answered
    exact absurd (congrArg length all) (by decide)

end StateMachineStore

end Morrow
