import Morrow.BrokerState
import Morrow.ExpansionRestart

/-!
# Compaction by key

A compacted stream keeps the last record of each key. The broker has an index of the
greatest offset and sequence of every key: when it starts, the index is computed from all
messages at once; later every record is compared with the index after it was stored, and
the older of the two is removed.

Both come to the same messages and the same index, in whatever order the records are
stored and compared. The index is a maximum over the records compared so far, and a record
that has been compared is kept exactly if the index names it.
-/

namespace Morrow

open GuardedRuns OrderedMap List

/-- The greatest offset and sequence of each key; `⊥` where there is no entry. -/
abbrev CompactionLatest := CompactionKey → WithBot (ℕ ×ₗ ℕ)

/-- Entries are compared by offset, then by sequence. -/
def latestEntry (offset seq : ℕ) : WithBot (ℕ ×ₗ ℕ) := ↑(toLex (offset, seq))

theorem latestEntry_inj {offset seq otherOffset other : ℕ} :
    latestEntry offset seq = latestEntry otherOffset other ↔ offset = otherOffset ∧ seq = other :=
  WithBot.coe_inj.trans Prod.mk_inj

namespace DurableBrokerState

/-- A record that another one has replaced. -/
def removeCompactedSequence (seq : ℕ) (state : DurableBrokerState) : DurableBrokerState :=
  let place : Option (String × ℕ × ℕ) := do
    let record ← state.messages.get? seq
    some (← record.stream, ← record.partition, ← record.offset)
  { state with
    messages := state.messages.erase seq
    partitionSequences := match place with
      | some (stream, partition, offset) =>
        state.partitionSequences.erase (position stream partition offset)
      | none => state.partitionSequences
    consumers := state.consumers.mapValues fun _ consumer =>
      { consumer with
        cursors := match place with
          | some (stream, partition, offset) =>
            consumer.cursors.removeRecord stream partition offset
          | none => consumer.cursors
        pending := consumer.pending.erase seq
        pendingAttempts := consumer.pendingAttempts.erase seq
        inFlight := consumer.inFlight.erase seq
        acked := consumer.acked.erase seq } }

end DurableBrokerState

/-- A broker with the index of its keys. -/
structure CompactedBroker where
  inner : DurableBrokerState
  compactionLatest : CompactionLatest
  supersededSinceCompaction : ℕ

namespace CompactedBroker

variable (streams : List ConfiguredStream)

/-- A stored record is compared with the last one of its key. -/
def applyRecordCompaction (seq : ℕ) (broker : CompactedBroker) : CompactedBroker :=
  match (broker.inner.messages.get? seq).bind (compactionIdentity streams) with
  | none => broker
  | some (identity, offset) =>
    let newest := latestEntry offset seq
    let previous : Option (ℕ ×ₗ ℕ) := broker.compactionLatest identity
    if newest ≤ broker.compactionLatest identity then
      { broker with
        inner := broker.inner.removeCompactedSequence seq
        supersededSinceCompaction := broker.supersededSinceCompaction + 1 }
    else
      let noted := Function.update broker.compactionLatest identity newest
      match previous with
      | none => { broker with compactionLatest := noted }
      | some latest =>
        { inner := broker.inner.removeCompactedSequence (ofLex latest).2
          compactionLatest := noted
          supersededSinceCompaction := broker.supersededSinceCompaction + 1 }

end CompactedBroker

namespace KeyCompaction

variable (streams : List ConfiguredStream)

/-- What a message offers for a key. -/
def candidate (key : CompactionKey) (message : ℕ × PublishRecord) : WithBot (ℕ ×ₗ ℕ) :=
  match compactionIdentity streams message.2 with
  | none => ⊥
  | some (identity, offset) => if identity = key then latestEntry offset message.1 else ⊥

/-- The message has no key, or the index names it. -/
def survives (latest : CompactionLatest) (seq : ℕ) (record : PublishRecord) : Bool :=
  match compactionIdentity streams record with
  | none => true
  | some (identity, offset) => decide (latest identity = latestEntry offset seq)

/-- The messages that are kept and the index, computed from all messages. -/
def recover (messages : OrderedMap ℕ PublishRecord) :
    OrderedMap ℕ PublishRecord × CompactionLatest :=
  let latest key := messages.entries.foldr (fun message => max (candidate streams key message)) ⊥
  (messages.retain (survives streams latest), latest)

variable {streams} {latest : CompactionLatest} {key : CompactionKey} {message : ℕ × PublishRecord}
  {seq offset : ℕ} {record : PublishRecord} {messages : OrderedMap ℕ PublishRecord}

theorem candidate_eq_entry : candidate streams key message = latestEntry offset seq ↔
    compactionIdentity streams message.2 = some (key, offset) ∧ message.1 = seq := by
  unfold candidate
  cases compactionIdentity streams message.2 with
  | none => exact iff_of_false WithBot.bot_ne_coe nofun
  | some identity =>
    by_cases same : identity.1 = key
    · simp [latestEntry_inj, Prod.ext_iff, same]
    · simp [latestEntry, Prod.ext_iff, same]

theorem survives_iff : survives streams latest seq record = true ↔ ∀ key offset,
    compactionIdentity streams record = some (key, offset) →
      latest key = latestEntry offset seq := by
  unfold survives
  cases compactionIdentity streams record with
  | none => simp
  | some identity => simp [Prod.ext_iff]

theorem recover_latest : (recover streams messages).2 key =
    messages.entries.toFinset.sup (candidate streams key) := by
  change messages.entries.foldr _ ⊥ = _
  induction messages.entries with
  | nil => rfl
  | cons message rest ih => rw [foldr_cons, ih, toFinset_cons, Finset.sup_insert]

/-- Exactly the messages are kept that no message with the same key exceeds. -/
theorem recover_messages (messages : OrderedMap ℕ PublishRecord) :
    (recover streams messages).1 = recoverCompactionIndex streams messages := by
  apply ext_get?
  intro seq
  change (messages.retain (survives streams (recover streams messages).2)).get? seq = _
  rw [recoverCompactionIndex, get?_retain, get?_retain]
  cases found : messages.get? seq with
  | none => rfl
  | some record =>
    rw [Option.filter_some, Option.filter_some, survives]
    cases identified : compactionIdentity streams record with
    | none => rfl
    | some identity =>
      obtain ⟨key, offset⟩ := identity
      have member : (seq, record) ∈ messages.entries.toFinset :=
        mem_toFinset.mpr (mem_entries.mpr found)
      have reached := Finset.le_sup (f := candidate streams key) member
      rw [candidate_eq_entry.mpr ⟨identified, rfl⟩, ← recover_latest] at reached
      refine congrArg (fun kept : Bool => if kept then some record else none) ?_
      rw [Bool.eq_iff_iff, decide_eq_true_iff, ← reached.ge_iff_eq', recover_latest,
        Finset.sup_le_iff, all_eq_true]
      simp only [mem_toFinset, candidate]
      refine forall₂_congr fun message _ => ?_
      cases compactionIdentity streams message.2 with
      | none => simp
      | some other =>
        by_cases same : other.1 = key
        · simp [same, latestEntry]
        · simp [same]

end KeyCompaction

/-! ### One record after the other -/

/-- A broker with the messages it has stored and those it has compared with the index. -/
structure CompactionRun extends CompactedBroker where
  stored : OrderedMap ℕ PublishRecord
  compared : List (ℕ × PublishRecord)

inductive CompactionAction
  | store (record : PublishRecord)
  | compact (seq : ℕ) (record : PublishRecord)

namespace CompactionRun

open KeyCompaction

variable (streams : List ConfiguredStream)

def next (run : CompactionRun) : CompactionAction → CompactionRun
  | .store record =>
    { run with
      inner := run.inner.showRecord record
      stored := run.stored.insert record.seq record.intoResidentMetadata }
  | .compact seq record =>
    { run with
      toCompactedBroker := run.toCompactedBroker.applyRecordCompaction streams seq
      compared := (seq, record) :: run.compared }

/-- A sequence is stored once, and compared once after that. -/
def Once (run : CompactionRun) : CompactionAction → Prop
  | .store record => run.stored.get? record.seq = none
  | .compact seq record => run.stored.get? seq = some record ∧ (seq, record) ∉ run.compared

/-- The index is that of the compared messages, and it decides which of them are left. -/
structure Sound (run : CompactionRun) : Prop where
  known : ∀ message ∈ run.compared, run.stored.get? message.1 = some message.2
  index : ∀ key, run.compactionLatest key = run.compared.toFinset.sup (candidate streams key)
  kept : ∀ seq record, run.inner.messages.get? seq = some record ↔
    run.stored.get? seq = some record ∧
      ((seq, record) ∈ run.compared → survives streams run.compactionLatest seq record = true)

variable {streams} {run : CompactionRun} {seq : ℕ} {record : PublishRecord}

theorem Sound.named (sound : Sound streams run) {key : CompactionKey} {offset seq : ℕ}
    (entry : run.compactionLatest key = latestEntry offset seq) :
    ∃ record, (seq, record) ∈ run.compared ∧
      compactionIdentity streams record = some (key, offset) := by
  rw [sound.index] at entry
  obtain none | some := run.compared.toFinset.eq_empty_or_nonempty
  · rw [none] at entry
    exact absurd entry WithBot.bot_ne_coe
  · obtain ⟨message, member, greatest⟩ := run.compared.toFinset.exists_mem_eq_sup some
      (candidate streams key)
    obtain ⟨identified, rfl⟩ := candidate_eq_entry.mp (greatest.symm.trans entry)
    exact ⟨message.2, mem_toFinset.mp member, identified⟩

theorem Sound.store (sound : Sound streams run) (fresh : run.stored.get? record.seq = none) :
    Sound streams (next streams run (.store record)) := by
  have other : ∀ message ∈ run.compared, message.1 ≠ record.seq := by
    intro message member same
    rw [← same, sound.known message member] at fresh
    exact Option.some_ne_none _ fresh
  constructor
  · intro message member
    exact (get?_insert_of_ne _ _ (other message member)).trans (sound.known message member)
  · exact sound.index
  · intro seq found
    change (run.inner.messages.insert record.seq _).get? seq = _ ↔
      (run.stored.insert record.seq _).get? seq = _ ∧ _
    rw [get?_insert, get?_insert]
    by_cases same : seq = record.seq
    · rw [if_pos same, if_pos same]
      exact (and_iff_left fun member => absurd same (other _ member)).symm
    · rw [if_neg same, if_neg same]
      exact sound.kept seq found

theorem Sound.compact (sound : Sound streams run) (once : Once run (.compact seq record)) :
    Sound streams (next streams run (.compact seq record)) := by
  obtain ⟨present, fresh⟩ := once
  have held : run.inner.messages.get? seq = some record :=
    (sound.kept seq record).mpr ⟨present, fun member => absurd member fresh⟩
  have known := sound.known
  have named := @sound.named
  have kept := sound.kept
  simp only [survives_iff] at kept
  let broker := run.toCompactedBroker.applyRecordCompaction streams seq
  suffices both : (∀ key, broker.compactionLatest key =
        max (candidate streams key (seq, record)) (run.compactionLatest key)) ∧
      ∀ tested found, broker.inner.messages.get? tested = some found ↔
        run.stored.get? tested = some found ∧
          (tested = seq ∧ found = record ∨ (tested, found) ∈ run.compared → ∀ key offset,
            compactionIdentity streams found = some (key, offset) →
              broker.compactionLatest key = latestEntry offset tested) by
    constructor
    · exact forall_mem_cons.mpr ⟨present, known⟩
    · intro key
      rw [next, toFinset_cons, Finset.sup_insert, ← sound.index]
      exact both.1 key
    · simp only [next, survives_iff, mem_cons, Prod.mk.injEq]
      exact both.2
  unfold broker CompactedBroker.applyRecordCompaction
  rw [held, Option.bind_some]
  unfold candidate
  cases identified : compactionIdentity streams record with
  | none => exact ⟨fun key => (max_bot_left _).symm, by grind⟩
  | some identity =>
    obtain ⟨key, offset⟩ := identity
    dsimp only
    by_cases older : latestEntry offset seq ≤ run.compactionLatest key
    · rw [if_pos older]
      constructor
      · intro tested
        by_cases same : key = tested
        · subst same
          rw [if_pos rfl, max_eq_right older]
        · rw [if_neg same, max_bot_left]
      · intro tested found
        change (run.inner.messages.erase seq).get? tested = _ ↔ _
        rw [get?_erase]
        grind
    · rw [if_neg older]
      have noted : ∀ tested, Function.update run.compactionLatest key (latestEntry offset seq)
          tested = max (if key = tested then latestEntry offset seq else ⊥)
            (run.compactionLatest tested) := by
        intro tested
        by_cases same : key = tested
        · subst same
          rw [Function.update_self, if_pos rfl, max_eq_left (le_of_not_ge older)]
        · rw [Function.update_of_ne (Ne.symm same), if_neg same, max_bot_left]
      cases previous : run.compactionLatest key with
      | bot =>
        have unnamed : ∀ offset seq, run.compactionLatest key ≠ latestEntry offset seq :=
          fun _ _ => previous.trans_ne WithBot.bot_ne_coe
        grind [Function.update, latestEntry_inj]
      | coe latest =>
        refine ⟨noted, fun tested found => ?_⟩
        obtain ⟨⟨earlierOffset, earlier⟩, rfl⟩ := toLex.surjective latest
        have entry : run.compactionLatest key = latestEntry earlierOffset earlier := previous
        change (run.inner.messages.erase earlier).get? tested = _ ↔ _
        rw [get?_erase]
        grind [Function.update, latestEntry_inj]

variable (inner : DurableBrokerState)

/-- A broker without messages. -/
def fresh : CompactionRun :=
  ⟨⟨{ inner with messages := ∅ }, ⊥, 0⟩, ∅, []⟩

theorem sound_fresh : Sound streams (fresh inner) where
  known := fun _ member => absurd member not_mem_nil
  index := fun _ => rfl
  kept := fun _ _ => iff_of_false nofun fun both => nomatch both.1

/-- Once every stored message has been compared with the index, the messages left and the
index are those that are computed from all of them at once. -/
theorem compaction_eq_recovery {inner : DurableBrokerState} {last : CompactionRun}
    (run : Reaches (next streams) Once (fresh inner) last)
    (complete : ∀ message ∈ last.stored.entries, message ∈ last.compared) :
    (last.inner.messages, last.compactionLatest) = recover streams last.stored ∧
      last.inner.messages = recoverCompactionIndex streams last.stored := by
  have sound : Sound streams last := by
    apply run.invariant (Sound streams) _ (sound_fresh inner)
    intro state action once sound
    cases action with
    | store record => exact sound.store once
    | compact seq record => exact sound.compact once
  have same : last.compared.toFinset = last.stored.entries.toFinset := by
    ext message
    rw [mem_toFinset, mem_toFinset]
    exact ⟨fun member => mem_entries.mpr (sound.known message member), complete message⟩
  have index : last.compactionLatest = (recover streams last.stored).2 := by
    funext key
    rw [sound.index, same, recover_latest]
  have messages : last.inner.messages = (recover streams last.stored).1 := by
    apply ext_get?
    intro seq
    change _ = (last.stored.retain (survives streams (recover streams last.stored).2)).get? seq
    rw [get?_retain]
    apply Option.ext
    intro record
    rw [sound.kept, index, Option.filter_eq_some_iff]
    refine and_congr_right fun stored => imp_iff_right ?_
    exact complete _ (mem_entries.mpr stored)
  exact ⟨Prod.ext messages index, messages.trans (recover_messages last.stored)⟩

/-- A record of one key in a compacted stream. -/
def orderUpdated (seq : ℕ) : PublishRecord :=
  ⟨seq, "default", some "orders", some 0, some seq, "orders.new", some [7], [], 0, none, [], 0, 0⟩

def compactedOrders : ConfiguredStream := { ClusterBroker.ordersStream with compaction := .key }

/-- Two records of one key are compared in the wrong order, and the later one is left. -/
theorem compaction_eq_recovery_reordered : ∃ last : CompactionRun,
    last.stored.keys = [1, 2] ∧ last.inner.messages.keys = [2] ∧
      (last.inner.messages, last.compactionLatest) = recover [compactedOrders] last.stored ∧
      last.inner.messages = recoverCompactionIndex [compactedOrders] last.stored := by
  have run : ∃ last, Reaches (next [compactedOrders]) Once (fresh .empty) last ∧
      last.stored.keys = [1, 2] ∧ last.inner.messages.keys = [2] ∧
      ∀ message ∈ last.stored.entries, message ∈ last.compared :=
    ⟨_, .step (.store (orderUpdated 1)) rfl <| .step (.store (orderUpdated 2)) rfl <|
      .step (.compact 2 (orderUpdated 2)) ⟨rfl, by decide +kernel⟩ <|
        .step (.compact 1 (orderUpdated 1)) ⟨rfl, by decide +kernel⟩ (.refl _),
      by decide +kernel⟩
  obtain ⟨last, run, stored, left, complete⟩ := run
  exact ⟨last, stored, left, compaction_eq_recovery run complete⟩

end CompactionRun

end Morrow
