import Morrow.ProducerSequences

/-!
# Idempotent production

The calls of one producer within one epoch. Besides the broker's state a session
records what was admitted as new and what was completed, newest first. The broker
remembers the newest completions only; they are the deduplication window.
-/

namespace Morrow

open GuardedRuns OrderedMap ProducerState List

/-- A sequence that was completed, and what was stored for it. -/
structure Completion where
  sequence : ℕ
  fingerprint : ℕ
  record : PublishRecord
deriving DecidableEq

structure ProducerSession where
  state : ProducerState
  admitted : List (ℕ × ℕ)
  completed : List Completion

namespace ProducerSession

/-- The two calls of a publish, without the producer and the epoch. -/
inductive SessionCall
  | begin (sequence fingerprint : ℕ)
  | complete (sequence fingerprint : ℕ) (record : PublishRecord)

variable (producerId : String) (epoch : ℕ)

/-- The sequence as it is known to the broker. -/
abbrev identity (sequence : ℕ) : ProducerSequence := ⟨producerId, epoch, sequence⟩

variable (session : ProducerSession)

def next : SessionCall → ProducerSession
  | .begin sequence fingerprint =>
    let answer := session.state.beginProducerSequence (identity producerId epoch sequence)
      fingerprint
    match answer.2 with
    | .ok (.new, _) =>
      { session with
        state := answer.1
        admitted := (sequence, fingerprint) :: session.admitted }
    | _ => { session with state := answer.1 }
  | .complete sequence fingerprint record =>
    { session with
      state := session.state.completeProducerSequence (identity producerId epoch sequence)
        fingerprint record
      completed := ⟨sequence, fingerprint, record⟩ :: session.completed }

/-- A publish completes a sequence that is in flight. -/
def Offered : SessionCall → Prop
  | .begin _ _ => True
  | .complete sequence _ _ => identity producerId epoch sequence ∈ session.state.producerInFlight

/-- The broker has no sequence of the epoch yet, and the epoch is not behind. -/
structure Fresh (state : ProducerState) : Prop where
  sequences : ∀ sequence, state.producerSequences.get? (identity producerId epoch sequence) = none
  inFlight : ∀ sequence, identity producerId epoch sequence ∉ state.producerInFlight
  epochs : ∀ recorded ∈ state.producerEpochs.get? producerId, recorded ≤ epoch

/-- The completions the broker still answers from. -/
def window : List Completion :=
  session.completed.take maxProducerSequencesPerProducer

/-- What an idempotent producer relies on. -/
structure Idempotent (session : ProducerSession) : Prop where
  admittedOnce : (session.admitted.map Prod.fst).Nodup
  completedOnce : (session.completed.map Completion.sequence).Nodup
  consecutive : (session.admitted.map Prod.fst).IsChain fun later earlier => later = earlier + 1
  repeated : ∀ completion ∈ session.window,
    session.state.beginProducerSequence (identity producerId epoch completion.sequence)
      completion.fingerprint = (session.state, .ok (.duplicate, some completion.record))
  reused : ∀ completion ∈ session.window, ∀ fingerprint, fingerprint ≠ completion.fingerprint →
    session.state.beginProducerSequence (identity producerId epoch completion.sequence)
      fingerprint = (session.state,
        .error (.error "producer sequence was reused with different content"))
  bounded : (session.state.known (identity producerId epoch 0)).length ≤
    maxProducerSequencesPerProducer

/-- The state of the broker follows from what was admitted and completed: the window is
remembered, and at most one admitted sequence is not completed. -/
structure Follows (session : ProducerSession) : Prop where
  stored : ∀ sequence entry,
    session.state.producerSequences.get? (identity producerId epoch sequence) = some entry ↔
      ⟨sequence, entry.fingerprint, entry.record⟩ ∈ session.window
  progress : ∃ pending : Option ℕ,
    session.admitted.map Prod.fst = pending.toList ++ session.completed.map Completion.sequence ∧
    ∀ sequence, identity producerId epoch sequence ∈ session.state.producerInFlight ↔
      pending = some sequence
  chain : (session.admitted.map Prod.fst).IsChain fun later earlier => later = earlier + 1
  fits : ∀ sequence ∈ session.admitted.map Prod.fst, sequence ≤ u64Max
  epochs : ∀ recorded ∈ session.state.producerEpochs.get? producerId,
    recorded ≤ epoch ∧ (session.completed ≠ [] → recorded = epoch)

variable {producerId epoch}

theorem Fresh.follows {state : ProducerState} (fresh : Fresh producerId epoch state) :
    Follows producerId epoch ⟨state, [], []⟩ where
  stored := by simp [window, fresh.sequences]
  progress := ⟨none, rfl, by simp [fresh.inFlight]⟩
  chain := List.IsChain.nil
  fits := by simp
  epochs := fun recorded found => ⟨fresh.epochs recorded found, fun some => absurd rfl some⟩

/-! ### The window -/

namespace Follows

variable {session : ProducerSession} (follows : Follows producerId epoch session)
include follows

theorem admitted_decreasing : (session.admitted.map Prod.fst).Pairwise (· > ·) := by
  apply List.IsChain.pairwise
  exact follows.chain.imp fun later earlier step => by omega

theorem completed_decreasing : (session.completed.map Completion.sequence).Pairwise (· > ·) := by
  obtain ⟨pending, split, -⟩ := follows.progress
  have all := follows.admitted_decreasing
  rw [split] at all
  exact (pairwise_append.mp all).2.1

theorem window_decreasing : (session.window.map Completion.sequence).Pairwise (· > ·) := by
  apply List.Pairwise.sublist _ follows.completed_decreasing
  exact (take_sublist _ _).map _

theorem mem_known {sequence : ℕ} {tested : ProducerSequence} :
    tested ∈ session.state.known (identity producerId epoch sequence) ↔
      tested.producerId = producerId ∧ tested.epoch = epoch ∧
        tested.sequence ∈ session.window.map Completion.sequence := by
  obtain ⟨testedId, testedEpoch, number⟩ := tested
  simp only [known, List.mem_filter, OrderedMap.mem_keys, decide_eq_true_eq, List.mem_map]
  constructor
  · rintro ⟨⟨entry, found⟩, rfl, rfl⟩
    exact ⟨rfl, rfl, _, (follows.stored number entry).mp found, rfl⟩
  · rintro ⟨rfl, rfl, completion, member, rfl⟩
    exact ⟨⟨_, (follows.stored completion.sequence
      ⟨completion.fingerprint, completion.record⟩).mpr member⟩, rfl, rfl⟩

variable (sequence : ℕ)

theorem mem_sequences (number : ℕ) :
    number ∈ (session.state.known (identity producerId epoch sequence)).map
      ProducerSequence.sequence ↔ number ∈ session.window.map Completion.sequence := by
  rw [mem_map]
  constructor
  · rintro ⟨tested, member, rfl⟩
    exact (follows.mem_known.mp member).2.2
  · intro member
    exact ⟨identity producerId epoch number, follows.mem_known.mpr ⟨rfl, rfl, member⟩, rfl⟩

/-- The broker remembers as many sequences as the window has. -/
theorem length_known :
    (session.state.known (identity producerId epoch sequence)).length = session.window.length := by
  have same : ((session.state.known (identity producerId epoch sequence)).map
      ProducerSequence.sequence).Perm (session.window.map Completion.sequence) := by
    rw [perm_ext_iff_of_nodup]
    · exact follows.mem_sequences sequence
    · apply List.Nodup.map_on
      · rintro ⟨leftId, leftEpoch, left⟩ leftMember ⟨rightId, rightEpoch, right⟩ rightMember
          (rfl : left = right)
        obtain ⟨rfl, rfl, -⟩ := follows.mem_known.mp leftMember
        obtain ⟨rfl, rfl, -⟩ := follows.mem_known.mp rightMember
        rfl
      · exact ((keys_increasing _).imp ne_of_lt).filter _
    · exact follows.window_decreasing.imp ne_of_gt
  simpa using same.length_eq

/-- The largest remembered sequence is the one completed last. -/
theorem last_known :
    ((session.state.known (identity producerId epoch sequence)).map
      ProducerSequence.sequence).max? = (session.completed.map Completion.sequence).head? := by
  have remembered := follows.mem_sequences sequence
  have decreasing := follows.window_decreasing
  unfold window at remembered decreasing
  cases completed : session.completed with
  | nil =>
    simp only [completed, take_nil, map_nil, not_mem_nil, iff_false] at remembered
    rw [eq_nil_iff_forall_not_mem.mpr remembered]
    rfl
  | cons newest older =>
    simp only [completed, show maxProducerSequencesPerProducer = 4095 + 1 from rfl,
      take_succ_cons, map_cons] at remembered decreasing
    rw [map_cons, head?_cons, max?_eq_some_iff]
    constructor
    · exact (remembered _).mpr mem_cons_self
    · intro number member
      rcases mem_cons.mp ((remembered number).mp member) with rfl | earlier
      · exact le_refl _
      · exact le_of_lt (rel_of_pairwise_cons decreasing earlier)

variable {newer : List Completion}

theorem above_oldest {oldest : Completion} (whole : session.window = newer ++ [oldest]) :
    ∀ completion ∈ newer, oldest.sequence < completion.sequence := by
  intro completion member
  have decreasing := follows.window_decreasing
  rw [whole, map_append, pairwise_append] at decreasing
  exact decreasing.2.2 _ (mem_map_of_mem member) _ (by simp)

/-- The smallest remembered sequence is the one the window ends with. -/
theorem oldest_known {oldest : Completion} (whole : session.window = newer ++ [oldest])
    (sequence : ℕ) :
    (session.state.known (identity producerId epoch sequence)).argmin (·.sequence) =
      some (identity producerId epoch oldest.sequence) := by
  have member : identity producerId epoch oldest.sequence ∈
      session.state.known (identity producerId epoch sequence) :=
    follows.mem_known.mpr ⟨rfl, rfl, by simp [whole]⟩
  cases smallest : (session.state.known (identity producerId epoch sequence)).argmin
      (·.sequence) with
  | none =>
    rw [argmin_eq_none.mp smallest] at member
    cases member
  | some found =>
    have bound := le_of_mem_argmin member smallest
    have stored := follows.mem_known.mp (argmin_mem smallest)
    obtain ⟨foundId, foundEpoch, number⟩ := found
    obtain ⟨rfl, rfl, inWindow⟩ := stored
    rw [whole, map_append, mem_append, mem_map] at inWindow
    rcases inWindow with ⟨completion, newerMember, same⟩ | same
    · have larger := follows.above_oldest whole completion newerMember
      simp only at same bound
      omega
    · simp only [map_cons, map_nil, mem_singleton] at same
      rw [same]

/-- Making room forgets what the next completion pushes out of the window. -/
theorem dropOldest_get? (tested : ℕ) (entry : ProducerDedupEntry) :
    (session.state.dropOldest (identity producerId epoch sequence)).get?
        (identity producerId epoch tested) = some entry ↔
      ⟨tested, entry.fingerprint, entry.record⟩ ∈
        session.completed.take (maxProducerSequencesPerProducer - 1) := by
  have positive : 0 < maxProducerSequencesPerProducer := by decide
  have length := follows.length_known sequence
  rw [window, length_take] at length
  unfold dropOldest
  by_cases full : maxProducerSequencesPerProducer ≤ session.completed.length
  · have inside : maxProducerSequencesPerProducer - 1 < session.completed.length := by omega
    have whole : session.window =
        session.completed.take (maxProducerSequencesPerProducer - 1) ++
          [session.completed.get ⟨maxProducerSequencesPerProducer - 1, inside⟩] := by
      rw [window, get_eq_getElem, take_concat_get' _ _ inside,
        Nat.sub_add_cancel positive]
    rw [if_pos (by omega)]
    simp only [follows.oldest_known whole, get?_erase]
    constructor
    · intro found
      split at found
      · cases found
      · rename_i other
        have inWindow := (follows.stored tested entry).mp found
        rw [whole, mem_append, mem_singleton] at inWindow
        rcases inWindow with kept | last
        · exact kept
        · rw [← last] at other
          exact absurd rfl other
    · intro kept
      have larger := follows.above_oldest whole _ kept
      rw [if_neg, follows.stored, whole]
      · exact mem_append_left _ kept
      · intro same
        have equal := congrArg ProducerSequence.sequence same
        simp only at equal larger
        omega
  · rw [if_neg (by omega), follows.stored, window, take_of_length_le (by omega),
      take_of_length_le (by omega)]

/-! ### One call -/

theorem not_stale : ¬ epoch < session.state.currentEpoch (identity producerId epoch sequence) := by
  unfold currentEpoch
  cases recorded : session.state.producerEpochs.get? producerId with
  | none => simp
  | some before => simpa [recorded] using (follows.epochs before recorded).1

/-- Raising the epoch forgets none of its sequences: there is none yet. -/
theorem raiseEpoch_sequences (tested : ℕ) :
    (session.state.raiseEpoch (identity producerId epoch sequence)).producerSequences.get?
        (identity producerId epoch tested) =
      session.state.producerSequences.get? (identity producerId epoch tested) := by
  unfold raiseEpoch
  split
  · rename_i later
    have idle : session.completed = [] := by
      by_contra completed
      unfold currentEpoch at later
      cases recorded : session.state.producerEpochs.get? producerId with
      | none => simp [recorded] at later
      | some before =>
        simp [recorded, (follows.epochs before recorded).2 completed] at later
    have unknown : session.state.producerSequences.get? (identity producerId epoch tested) =
        none := by
      apply Option.eq_none_iff_forall_ne_some.mpr
      intro entry found
      have member := (follows.stored tested entry).mp found
      simp [window, idle] at member
    rw [fence, get?_retain, unknown]
    rfl
  · rfl

theorem raise (sequence : ℕ) :
    Follows producerId epoch { session with
      state := session.state.raiseEpoch (identity producerId epoch sequence) } := by
  refine ⟨?_, ?_, follows.chain, follows.fits, ?_⟩
  · intro tested entry
    rw [follows.raiseEpoch_sequences]
    exact follows.stored tested entry
  · simpa only [raiseEpoch_inFlight] using follows.progress
  · intro recorded found
    rw [raiseEpoch_get? (follows.not_stale sequence), if_pos rfl] at found
    obtain ⟨before, -, rfl⟩ := Option.map_eq_some_iff.mp found
    exact ⟨le_refl _, fun _ => rfl⟩

/-- A sequence that may begin continues the admitted ones. -/
theorem continues {sequence : ℕ}
    (unknown : session.state.producerSequences.get? (identity producerId epoch sequence) = none)
    (checked : session.state.checkNew (identity producerId epoch sequence) = .ok ()) :
    session.admitted.map Prod.fst = session.completed.map Completion.sequence ∧
      (∀ sequence, identity producerId epoch sequence ∉ session.state.producerInFlight) ∧
      sequence ≤ u64Max ∧
      ∀ earlier ∈ (session.completed.map Completion.sequence).head?, sequence = earlier + 1 := by
  obtain ⟨_, alone, checked⟩ := bind_eq_ok.mp checked
  obtain ⟨_, continuing, absent⟩ := bind_eq_ok.mp checked
  rw [ensure_eq_ok] at alone absent
  rw [follows.last_known] at continuing
  obtain ⟨pending, split, inFlight⟩ := follows.progress
  cases pending with
  | some other =>
    have started := (inFlight other).mpr rfl
    by_cases same : other = sequence
    · rw [same] at started
      exact absurd started absent
    · exact absurd ⟨rfl, rfl, same⟩ (alone _ started)
  | none =>
    refine ⟨by simpa using split, by simpa using inFlight, ?_⟩
    cases completed : session.completed with
    | nil =>
      simp only [completed, map_nil, head?_nil, checkNext, ensure_eq_ok] at continuing
      refine ⟨continuing.trans (by decide), by simp⟩
    | cons last older =>
      have member : last ∈ session.window := by
        simp [window, completed, show maxProducerSequencesPerProducer = 4095 + 1 from rfl]
      have stored := (follows.stored last.sequence ⟨last.fingerprint, last.record⟩).mpr member
      have bound : last.sequence ≤ u64Max := follows.fits _ (by simp [split, completed])
      have different : sequence ≠ last.sequence := by
        rintro rfl
        rw [unknown] at stored
        cases stored
      simp only [completed, map_cons, head?_cons, checkNext] at continuing
      have successor : sequence = saturatingSucc last.sequence := by
        split at continuing <;> exact ensure_eq_ok.mp continuing
      -- An exhausted counter would repeat the remembered sequence.
      unfold saturatingSucc at successor
      split at successor
      · refine ⟨by omega, ?_⟩
        intro earlier newest
        simp only [map_cons, head?_cons, Option.mem_def, Option.some.injEq] at newest
        omega
      · omega

end Follows

variable {session : ProducerSession}

section

variable (follows : Follows producerId epoch session)

include follows

theorem Follows.begin (sequence fingerprint : ℕ) :
    Follows producerId epoch (session.next producerId epoch (.begin sequence fingerprint)) := by
  cases known : session.state.producerSequences.get? (identity producerId epoch sequence) with
  | some entry =>
    by_cases same : fingerprint = entry.fingerprint
    · subst same
      simpa only [next, begin_known known] using follows
    · simpa only [next, begin_reused known same] using follows
  | none =>
    have raised := follows.raise sequence
    have fresh := follows.not_stale sequence
    cases checked : (session.state.raiseEpoch (identity producerId epoch sequence)).checkNew
        (identity producerId epoch sequence) with
    | error failure =>
      simpa only [next, begin_refused known fresh checked] using raised
    | ok done =>
      simp only [next, begin_new known fresh checked]
      have unknown := (follows.raiseEpoch_sequences sequence sequence).trans known
      obtain ⟨settled, idle, fits, continuing⟩ := raised.continues unknown checked
      refine ⟨raised.stored, ⟨some sequence, by simp [← settled], ?_⟩, ?_, ?_, raised.epochs⟩
      · intro tested
        rw [Finset.mem_insert, or_iff_left (idle tested), Option.some.injEq]
        constructor
        · exact fun same => (congrArg ProducerSequence.sequence same).symm
        · rintro rfl
          rfl
      · rw [map_cons, isChain_cons]
        exact ⟨by rwa [settled], raised.chain⟩
      · intro tested member
        rcases mem_cons.mp member with rfl | earlier
        · exact fits
        · exact raised.fits tested earlier

theorem Follows.complete {sequence fingerprint : ℕ} {record : PublishRecord}
    (offered : session.Offered producerId epoch (.complete sequence fingerprint record)) :
    Follows producerId epoch
      (session.next producerId epoch (.complete sequence fingerprint record)) := by
  obtain ⟨pending, split, inFlight⟩ := follows.progress
  have started : pending = some sequence := (inFlight sequence).mp offered
  have notCompleted : sequence ∉ session.completed.map Completion.sequence := by
    have decreasing := follows.admitted_decreasing
    rw [split, started] at decreasing
    exact fun member => lt_irrefl _ (rel_of_pairwise_cons decreasing member)
  refine ⟨?_, ⟨none, ?_, ?_⟩, follows.chain, follows.fits, ?_⟩
  · intro tested entry
    have window : (session.next producerId epoch (.complete sequence fingerprint record)).window =
        ⟨sequence, fingerprint, record⟩ ::
          session.completed.take (maxProducerSequencesPerProducer - 1) := rfl
    rw [window, mem_cons, ← follows.dropOldest_get? sequence]
    simp only [next, completeProducerSequence, get?_insert]
    split
    · rename_i same
      have number := congrArg ProducerSequence.sequence same
      subst number
      have absent : (session.state.dropOldest (identity producerId epoch tested)).get?
          (identity producerId epoch tested) ≠ some entry := by
        rw [ne_eq, follows.dropOldest_get?]
        exact fun member => notCompleted (mem_map_of_mem (mem_of_mem_take member))
      obtain ⟨storedFingerprint, storedRecord⟩ := entry
      simp only [Option.some.injEq, ProducerDedupEntry.mk.injEq, Completion.mk.injEq, true_and,
        absent, or_false]
      exact and_congr eq_comm eq_comm
    · rename_i other
      rw [iff_or_self]
      intro same
      rw [(Completion.mk.inj same).1] at other
      exact absurd rfl other
  · simp [next, split, started]
  · intro tested
    simp only [next, completeProducerSequence, Finset.mem_erase, inFlight, started,
      Option.some.injEq, reduceCtorEq, iff_false, not_and]
    rintro other rfl
    exact other rfl
  · intro recorded found
    simp only [next, completeProducerSequence, get?_insert_self,
      Option.mem_def, Option.some.injEq] at found
    exact ⟨le_of_eq found.symm, fun _ => found.symm⟩

/-! ### All calls -/

theorem Follows.next (call : SessionCall) (offered : session.Offered producerId epoch call) :
    Follows producerId epoch (session.next producerId epoch call) := by
  cases call with
  | begin sequence fingerprint => exact follows.begin sequence fingerprint
  | complete sequence fingerprint record => exact follows.complete offered

theorem Follows.idempotent :
    Idempotent producerId epoch session where
  admittedOnce := follows.admitted_decreasing.imp ne_of_gt
  completedOnce := follows.completed_decreasing.imp ne_of_gt
  consecutive := follows.chain
  repeated := by
    intro completion member
    exact begin_known ((follows.stored completion.sequence
      ⟨completion.fingerprint, completion.record⟩).mpr member)
  reused := by
    intro completion member fingerprint other
    exact begin_reused ((follows.stored completion.sequence
      ⟨completion.fingerprint, completion.record⟩).mpr member) other
  bounded := by
    rw [follows.length_known, window, length_take]
    exact min_le_left _ _

end

/-- Whatever calls one producer makes within an epoch, its production is idempotent. -/
theorem idempotent_production (producerId : String) (epoch : ℕ) (start : ProducerState)
    (fresh : Fresh producerId epoch start) (session : ProducerSession)
    (run : Reaches (next producerId epoch) (Offered producerId epoch) ⟨start, [], []⟩ session) :
    Idempotent producerId epoch session := by
  have follows : Follows producerId epoch session := by
    apply run.invariant (Follows producerId epoch)
    · exact fun session call offered follows => follows.next call offered
    · exact fresh.follows
  exact follows.idempotent

/-- A producer that stores one sequence and begins the next. -/
theorem idempotent_production_first :
    ∃ session, Reaches (next "p" 0) (Offered "p" 0) ⟨empty, [], []⟩ session ∧
      session.completed.length = 1 ∧ session.admitted = [(1, 8), (0, 7)] ∧
      Idempotent "p" 0 session := by
  let record : PublishRecord :=
    ⟨0, "", none, none, none, "", none, [], 0, none, [], 0, 0⟩
  let start : ProducerSession := ⟨empty, [], []⟩
  let stored := (start.next "p" 0 (.begin 0 7)).next "p" 0 (.complete 0 7 record)
  have run : Reaches (next "p" 0) (Offered "p" 0) start (stored.next "p" 0 (.begin 1 8)) := by
    apply Reaches.step (.begin 0 7) trivial
    apply Reaches.step (.complete 0 7 record)
    · change _ ∈ _
      decide +kernel
    · exact Reaches.step (.begin 1 8) trivial (Reaches.refl _)
  have fresh : Fresh "p" 0 empty := by
    constructor
    · exact fun sequence => rfl
    · exact fun sequence => Finset.notMem_empty _
    · exact fun recorded found => by cases found
  refine ⟨_, run, by decide +kernel, by decide +kernel, ?_⟩
  exact idempotent_production "p" 0 empty fresh _ run

end ProducerSession

end Morrow
