import Morrow.TransactionJournal

/-!
# A crash inside a checkpoint

A checkpoint renames the new snapshot into place and then empties the journal. In
between, the deltas are in the journal and their effects in the snapshot, and opening
the files applies them a second time. The beginning of a transaction and a status
may be applied twice; a write, an offset or a view change that is applied twice is
there twice, unless the journal also holds the beginning of its transaction.
-/

namespace Morrow

open OrderedMap List Except

/-! ### Applying a list of changes twice -/

section Twice

variable {α β : Type} {change : β → α → β} {changes : List α}

/-- Each change does nothing, or overwrites all that the others do. -/
theorem foldl_absorbs (tail : List α)
    (overwrites : ∀ item ∈ tail, (∀ value, change value item = value) ∨
      ∀ other ∈ changes, ∀ value, change (change value other) item = change value item) :
    (∀ value, tail.foldl change value = value) ∨
      ∀ other ∈ changes, ∀ value, tail.foldl change (change value other) =
        tail.foldl change value := by
  induction tail with
  | nil => exact .inl fun _ => rfl
  | cons item tail ih =>
    have here := overwrites item mem_cons_self
    have later := ih (forall_mem_cons.mp overwrites).2
    simp only [foldl_cons]
    rcases here with idle | absorbs
    · simpa only [idle] using later
    · right
      intro other member value
      rw [absorbs other member]

theorem foldl_twice (value : β)
    (overwrites : ∀ item ∈ changes, (∀ value, change value item = value) ∨
      ∀ other ∈ changes, ∀ value, change (change value other) item = change value item) :
    changes.foldl change (changes.foldl change value) = changes.foldl change value := by
  rcases foldl_absorbs changes overwrites with idle | absorbs
  · exact idle _
  · have before : ∀ first : List α, (∀ item ∈ first, item ∈ changes) → ∀ value,
        changes.foldl change (first.foldl change value) = changes.foldl change value := by
      intro first
      induction first with
      | nil => exact fun _ _ => rfl
      | cons item first ih =>
        intro members value
        rw [foldl_cons, ih (forall_mem_cons.mp members).2]
        exact absorbs item (members item mem_cons_self) value
    exact before changes (fun _ member => member) value

/-- After a change that forgets the value before, nothing depends on it. -/
theorem foldl_reset {item : α} (member : item ∈ changes)
    (resets : ∀ left right, change left item = change right item) (left right : β) :
    changes.foldl change left = changes.foldl change right := by
  induction changes generalizing left right with
  | nil => cases member
  | cons first changes ih =>
    rcases mem_cons.mp member with rfl | later
    · rw [foldl_cons, foldl_cons, resets left right]
    · exact ih later _ _

end Twice

/-! ### What deltas do to one transaction -/

namespace TransactionDelta

/-- The transaction that the delta begins. -/
def begun? : TransactionDelta → Option String
  | .begin record => some record.id
  | _ => none

/-- The transaction into which the delta puts a write, an offset or a view change. -/
def filled? : TransactionDelta → Option String
  | .write id _ => some id
  | .offset id _ => some id
  | .view id _ => some id
  | _ => none

/-- The transaction of an identity after a delta. -/
def record (id : String) (stored : Option TransactionRecord) :
    TransactionDelta → Option TransactionRecord
  | .begin record => if record.id = id then some record else stored
  | delta =>
    match delta.edit with
    | some (target, change) => if target = id then stored.map change else stored
    | none => stored

/-- The epoch of a producer after a delta. -/
def epoch (producer : String) (stored : Option ℕ) : TransactionDelta → Option ℕ
  | .producerEpoch named epoch => if named = producer then some epoch else stored
  | _ => stored

end TransactionDelta

namespace TransactionState

open TransactionDelta

variable {state next : TransactionState} {delta : TransactionDelta}
  {deltas : List TransactionDelta} {id : String}

variable {change : TransactionRecord → TransactionRecord}

theorem update_eq_ok :
    state.update id change = .ok next ↔ state.transactions.contains id = true ∧
      next = { state with transactions := state.transactions.modify id change } := by
  unfold update
  split
  · rename_i known
    simp only [known, true_and, ok.injEq]
    exact eq_comm
  · rename_i unknown
    simp [unknown]

/-- A delta begins a transaction, records an epoch or edits a transaction. -/
theorem applyDelta_cases (applied : state.applyDelta delta = .ok next) :
    (∃ begun, delta = .begin begun ∧
      next = { state with transactions := state.transactions.insert begun.id begun }) ∨
    (∃ producer epoch, delta = .producerEpoch producer epoch ∧
      next = { state with producerEpochs := state.producerEpochs.insert producer epoch }) ∨
    ∃ target change, delta.edit = some (target, change) ∧
      state.transactions.contains target = true ∧
      next = { state with transactions := state.transactions.modify target change } := by
  cases delta with
  | begin begun => exact .inl ⟨begun, rfl, (ok.inj applied).symm⟩
  | producerEpoch producer epoch =>
    exact .inr (.inl ⟨producer, epoch, rfl, (ok.inj applied).symm⟩)
  | write target write => exact .inr (.inr ⟨target, _, rfl, update_eq_ok.mp applied⟩)
  | offset target offset => exact .inr (.inr ⟨target, _, rfl, update_eq_ok.mp applied⟩)
  | view target mutation => exact .inr (.inr ⟨target, _, rfl, update_eq_ok.mp applied⟩)
  | status target status => exact .inr (.inr ⟨target, _, rfl, update_eq_ok.mp applied⟩)

theorem record_edit {target : String} (edits : delta.edit = some (target, change))
    (stored : Option TransactionRecord) :
    delta.record id stored = if target = id then stored.map change else stored := by
  cases delta <;> cases edits <;> rfl

theorem applyDelta_record (applied : state.applyDelta delta = .ok next) (id : String) :
    next.transactions.get? id = delta.record id (state.transactions.get? id) := by
  rcases applyDelta_cases applied with
    ⟨begun, rfl, rfl⟩ | ⟨producer, epoch, rfl, rfl⟩ | ⟨target, change, edits, -, rfl⟩
  · simp only [get?_insert, record, eq_comm]
  · rfl
  · simp only [get?_modify, record_edit edits, eq_comm]

theorem applyDelta_epoch (applied : state.applyDelta delta = .ok next) (producer : String) :
    next.producerEpochs.get? producer =
      delta.epoch producer (state.producerEpochs.get? producer) := by
  rcases applyDelta_cases applied with
    ⟨begun, rfl, rfl⟩ | ⟨named, epoch, rfl, rfl⟩ | ⟨target, change, edits, -, rfl⟩
  · rfl
  · simp only [get?_insert, TransactionDelta.epoch, eq_comm]
  · cases delta <;> cases edits <;> rfl

theorem applyDeltas_record (applied : state.applyDeltas deltas = .ok next) (id : String) :
    next.transactions.get? id =
      deltas.foldl (fun stored delta => delta.record id stored) (state.transactions.get? id) := by
  induction deltas generalizing state with
  | nil =>
    obtain rfl := ok.inj applied
    rfl
  | cons delta deltas ih =>
    obtain ⟨between, first, rest⟩ := bind_eq_ok.mp applied
    rw [ih rest, foldl_cons, applyDelta_record first]

theorem applyDeltas_epoch (applied : state.applyDeltas deltas = .ok next) (producer : String) :
    next.producerEpochs.get? producer =
      deltas.foldl (fun stored delta => delta.epoch producer stored)
        (state.producerEpochs.get? producer) := by
  induction deltas generalizing state with
  | nil =>
    obtain rfl := ok.inj applied
    rfl
  | cons delta deltas ih =>
    obtain ⟨between, first, rest⟩ := bind_eq_ok.mp applied
    rw [ih rest, foldl_cons, applyDelta_epoch first]

/-! ### Which transactions exist -/

theorem applyDelta_keeps (applied : state.applyDelta delta = .ok next)
    (known : state.transactions.contains id = true) : next.transactions.contains id = true := by
  obtain ⟨stored, found⟩ := contains_iff.mp known
  rw [OrderedMap.contains, applyDelta_record applied, found]
  rcases applyDelta_cases applied with
    ⟨begun, rfl, -⟩ | ⟨producer, epoch, rfl, -⟩ | ⟨target, change, edits, -, -⟩
  · simp only [record]
    split <;> rfl
  · rfl
  · rw [record_edit edits]
    split <;> rfl

theorem applyDeltas_keeps (applied : state.applyDeltas deltas = .ok next)
    (known : state.transactions.contains id = true) : next.transactions.contains id = true := by
  induction deltas generalizing state with
  | nil =>
    obtain rfl := ok.inj applied
    exact known
  | cons delta deltas ih =>
    obtain ⟨between, first, rest⟩ := bind_eq_ok.mp applied
    exact ih rest (applyDelta_keeps first known)

/-- The transactions that deltas edited exist. -/
theorem applyDeltas_known (applied : state.applyDeltas deltas = .ok next) (member : delta ∈ deltas)
    (edits : delta.edit = some (id, change)) : next.transactions.contains id = true := by
  induction deltas generalizing state with
  | nil => cases member
  | cons first deltas ih =>
    obtain ⟨between, applied, rest⟩ := bind_eq_ok.mp applied
    rcases mem_cons.mp member with rfl | later
    · rw [applyDelta_edit edits] at applied
      have known := (update_eq_ok.mp applied).1
      rw [← applyDelta_edit edits] at applied
      exact applyDeltas_keeps rest (applyDelta_keeps applied known)
    · exact ih rest later

/-- Deltas can be applied where all transactions they edit exist. -/
theorem applyDeltas_of_known
    (known : ∀ delta ∈ deltas, ∀ id change, delta.edit = some (id, change) →
      state.transactions.contains id = true) : ∃ next, state.applyDeltas deltas = .ok next := by
  induction deltas generalizing state with
  | nil => exact ⟨state, rfl⟩
  | cons delta deltas ih =>
    have applies : ∃ between, state.applyDelta delta = .ok between := by
      cases edits : delta.edit with
      | none => cases delta <;> first | exact ⟨_, rfl⟩ | cases edits
      | some edit =>
        rw [applyDelta_edit edits]
        exact ⟨_, update_eq_ok.mpr ⟨known delta mem_cons_self _ _ edits, rfl⟩⟩
    obtain ⟨between, first⟩ := applies
    obtain ⟨next, rest⟩ := ih fun delta member id change edits =>
      applyDelta_keeps first (known delta (mem_cons_of_mem _ member) id change edits)
    exact ⟨next, bind_eq_ok.mpr ⟨between, first, rest⟩⟩

/-! ### Applying a journal a second time -/

/-- The journal holds the beginning of every transaction it puts something into. -/
def FillsBegun (deltas : List TransactionDelta) : Prop :=
  ∀ delta ∈ deltas, ∀ id ∈ delta.filled?, ∃ other ∈ deltas, other.begun? = some id

instance (deltas : List TransactionDelta) : Decidable (FillsBegun deltas) :=
  inferInstanceAs (Decidable (∀ delta ∈ deltas, _))

/-- Without a beginning and contents, a delta says nothing about a transaction or
gives it a status. -/
theorem record_of_not_filled (unbegun : delta.begun? ≠ some id)
    (unfilled : delta.filled? ≠ some id) :
    (∀ stored, delta.record id stored = stored) ∨
      ∃ status, ∀ stored, delta.record id stored = stored.map (withStatus status) := by
  cases delta with
  | begin begun => exact .inl fun stored => if_neg fun same => unbegun (congrArg some same)
  | producerEpoch producer epoch => exact .inl fun _ => rfl
  | write target item => exact .inl fun stored => if_neg fun same => unfilled (congrArg some same)
  | offset target item =>
    exact .inl fun stored => if_neg fun same => unfilled (congrArg some same)
  | view target item => exact .inl fun stored => if_neg fun same => unfilled (congrArg some same)
  | status target status =>
    by_cases same : target = id
    · exact .inr ⟨status, fun stored => if_pos same⟩
    · exact .inl fun stored => if_neg same

theorem records_twice (ordered : FillsBegun deltas) (stored : Option TransactionRecord) :
    let after := fun stored => deltas.foldl (fun stored delta => delta.record id stored) stored
    after (after stored) = after stored := by
  by_cases begins : ∃ delta ∈ deltas, delta.begun? = some id
  · obtain ⟨delta, member, begun⟩ := begins
    apply foldl_reset member
    intro left right
    cases delta with
    | begin record =>
      obtain rfl := Option.some.inj begun
      simp only [TransactionDelta.record, if_true]
    | _ => cases begun
  · have plain : ∀ delta ∈ deltas, (∀ stored, delta.record id stored = stored) ∨
        ∃ status, ∀ stored, delta.record id stored = stored.map (withStatus status) := by
      intro delta member
      apply record_of_not_filled
      · exact fun begun => begins ⟨delta, member, begun⟩
      · exact fun filled => begins (ordered delta member id filled)
    apply foldl_twice
    intro delta member
    rcases plain delta member with idle | ⟨status, gives⟩
    · exact .inl idle
    · right
      intro other present stored
      rcases plain other present with idle | ⟨earlier, gave⟩
      · rw [idle]
      · rw [gives, gives, gave, Option.map_map]
        rfl

theorem epochs_twice (producer : String) (stored : Option ℕ) :
    let after := fun stored => deltas.foldl (fun stored delta => delta.epoch producer stored) stored
    after (after stored) = after stored := by
  apply foldl_twice
  intro delta _
  cases delta with
  | producerEpoch named epoch =>
    by_cases same : named = producer
    · right
      intro other _ stored
      simp only [TransactionDelta.epoch, if_pos same]
    · exact .inl fun stored => if_neg same
  | _ => exact .inl fun _ => rfl

/-- A journal that holds the beginnings can be applied twice. -/
theorem applyDeltas_twice (applied : state.applyDeltas deltas = .ok next)
    (ordered : FillsBegun deltas) : next.applyDeltas deltas = .ok next := by
  have applies : ∃ again, next.applyDeltas deltas = .ok again :=
    applyDeltas_of_known fun delta member id change edits => applyDeltas_known applied member edits
  obtain ⟨again, second⟩ := applies
  have records : again.transactions = next.transactions := by
    apply ext_get?
    intro id
    rw [applyDeltas_record second, applyDeltas_record applied]
    exact records_twice ordered _
  have epochs : again.producerEpochs = next.producerEpochs := by
    apply ext_get?
    intro producer
    rw [applyDeltas_epoch second, applyDeltas_epoch applied]
    exact epochs_twice producer _
  cases again
  simp_all

/-! ### What is applied twice is there twice -/

theorem record_messages (unbegun : delta.begun? ≠ some id) (before : TransactionRecord) :
    ∃ after, delta.record id (some before) = some after ∧
      after.messages = before.messages + if delta.filled? = some id then 1 else 0 := by
  cases delta with
  | begin begun =>
    exact ⟨before, if_neg fun same => unbegun (congrArg some same), by simp [filled?]⟩
  | producerEpoch producer epoch => exact ⟨before, rfl, by simp [filled?]⟩
  | _ target item =>
    by_cases same : target = id
    · exact ⟨_, if_pos same, by simp +arith [filled?, same, TransactionRecord.messages]⟩
    · exact ⟨before, if_neg same, by simp [filled?, same]⟩

theorem records_messages (unbegun : ∀ delta ∈ deltas, delta.begun? ≠ some id)
    (before : TransactionRecord) :
    ∃ after, deltas.foldl (fun stored delta => delta.record id stored) (some before) =
        some after ∧
      after.messages = before.messages + deltas.countP fun delta => delta.filled? = some id := by
  induction deltas generalizing before with
  | nil => exact ⟨before, rfl, rfl⟩
  | cons delta deltas ih =>
    obtain ⟨between, first, grown⟩ := record_messages (unbegun delta mem_cons_self) before
    obtain ⟨after, rest, total⟩ := ih (forall_mem_cons.mp unbegun).2 between
    refine ⟨after, ?_, ?_⟩
    · rw [foldl_cons, first, rest]
    · rw [countP_cons]
      simp only [decide_eq_true_eq]
      omega

/-- Only a journal that holds the beginnings can be applied twice. -/
theorem fillsBegun_of_twice (applied : state.applyDeltas deltas = .ok next)
    (second : next.applyDeltas deltas = .ok next) : FillsBegun deltas := by
  intro delta member id filled
  by_contra missing
  have unbegun : ∀ other ∈ deltas, other.begun? ≠ some id :=
    fun other present begun => missing ⟨other, present, begun⟩
  have known : next.transactions.contains id = true := by
    cases delta <;> cases filled <;> exact applyDeltas_known applied member rfl
  obtain ⟨before, found⟩ := contains_iff.mp known
  obtain ⟨after, folded, total⟩ := records_messages unbegun before
  have same : some before = some after := by
    rw [← folded, ← found]
    exact applyDeltas_record second id
  obtain rfl := Option.some.inj same
  have counted : 0 < deltas.countP fun delta => delta.filled? = some id :=
    countP_pos_iff.mpr ⟨delta, member, by simpa using filled⟩
  omega

/-! ### A checkpoint that forgets -/

variable (limits : TransactionLimits)

/-- Few enough transactions ended for a checkpoint to keep them all. -/
def KeepsAll (state : TransactionState) : Prop :=
  (state.transactions.entries.filter fun entry => ¬ entry.2.status.Live).length ≤
    max (min (limits.maxConcurrent * 16) u64Max) 64

instance (limits : TransactionLimits) (state : TransactionState) :
    Decidable (state.KeepsAll limits) :=
  inferInstanceAs (Decidable (_ ≤ _))

theorem evict_eq_self_iff (state : TransactionState) :
    state.evict limits = state ↔ state.KeepsAll limits := by
  unfold KeepsAll
  constructor
  · intro same
    by_contra many
    cases ended : state.transactions.entries.filter fun entry => ¬ entry.2.status.Live with
    | nil =>
      rw [ended] at many
      exact many (Nat.zero_le _)
    | cons first rest =>
      -- The first transaction that ended is among those removed, and was stored.
      have stored : state.transactions.get? first.1 = some first.2 := by
        apply mem_entries.mp
        apply mem_of_mem_filter (p := fun entry => ¬ entry.2.status.Live)
        rw [ended]
        exact mem_cons_self
      rw [← same] at stored
      simp only [evict, get?_foldl_erase] at stored
      rw [if_pos] at stored
      · cases stored
      · rw [ended] at many ⊢
        rw [length_map]
        obtain ⟨excess, positive⟩ := Nat.exists_eq_succ_of_ne_zero
          (Nat.sub_ne_zero_of_lt (Nat.lt_of_not_le many))
        rw [positive]
        exact mem_cons_self
  · intro few
    simp only [evict, length_map, Nat.sub_eq_zero_of_le few, take_zero, foldl_nil]

end TransactionState

/-! ### The crash points of a checkpoint -/

open TransactionCoordinator TransactionState

/-- Wherever a checkpoint is interrupted, the files stand for the state that is in
memory then. The transactions to forget are removed from memory first. -/
structure CheckpointStart.Safe (start : CheckpointStart) (limits : TransactionLimits) : Prop where
  atStart : recovered start.snapshot start.journal = .ok start.state
  beforeRename : recovered start.snapshot start.journal = .ok (start.state.evict limits)
  beforeTruncation :
    recovered (some (start.state.evict limits)) start.journal = .ok (start.state.evict limits)
  afterTruncation : recovered (some (start.state.evict limits)) [] = .ok (start.state.evict limits)

/-- A checkpoint is safe exactly if it forgets nothing and the journal holds the
beginnings of the transactions it fills. -/
theorem checkpoint_safe_iff (limits : TransactionLimits) (operations : List Operation)
    (start : CheckpointStart)
    (reached : start ∈ ((new limits).performAll operations).checkpoints) :
    start.Safe limits ↔ start.state.KeepsAll limits ∧ FillsBegun start.journal := by
  have sound := ((durable_new limits).performAll operations).starts start reached
  rw [← evict_eq_self_iff]
  constructor
  · intro safe
    have same : start.state.evict limits = start.state :=
      ok.inj (safe.beforeRename.symm.trans sound.recovered)
    have second := safe.beforeTruncation
    rw [same] at second
    exact ⟨same, fillsBegun_of_twice sound.recovered second⟩
  · rintro ⟨same, ordered⟩
    have second := applyDeltas_twice sound.recovered ordered
    refine ⟨sound.recovered, ?_, ?_, rfl⟩
    · rw [same]
      exact sound.recovered
    · rw [same]
      exact second

/-- A transaction that begins and is filled between two checkpoints. -/
theorem checkpoint_safe_iff_begun :
    let limits : TransactionLimits := ⟨200, 1000, 10, 1000, 1⟩
    let filled := (new limits).performAll
      [.begin "t" "tenant" "producer" 0 0, .append "t" ⟨"s", 0, 0, [1]⟩ 0, .checkpoint]
    filled.checkpoints.length = 1 ∧ ∀ start ∈ filled.checkpoints, start.Safe limits := by
  refine ⟨by decide, ?_⟩
  intro start reached
  rw [checkpoint_safe_iff _ _ start reached]
  revert start
  decide

/-- A transaction of 127 writes begins with the first checkpoint and goes on to the
second; a crash inside the second doubles the writes since the first. -/
theorem interrupted_checkpoint_doubles_writes :
    let limits : TransactionLimits := ⟨200, 1000, 10, 1000, 1⟩
    ¬ ∀ start ∈ ((new limits).performAll (.begin "t" "tenant" "producer" 0 0 ::
      List.replicate 127 (.append "t" ⟨"s", 0, 0, [1]⟩ 0))).checkpoints, start.Safe limits := by
  intro limits safe
  have twice := fun start reached => (safe start reached).beforeTruncation
  revert twice
  decide +kernel

end Morrow
