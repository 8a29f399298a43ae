import Morrow.Reservations

/-!
# Fetches that fail

A fetch that cannot read a message gives back the reservation of that message, and no
other; a fetch whose batch the journal refuses makes all its reservations again. So the
other messages it reserved stay reserved, although the fetch is over.
-/

namespace Morrow

open Procedure DurableBrokerState List

namespace Fetch

variable {worlds : ℕ → DeliveryWorld} {fetch : Fetch} {state : DurableBrokerState}

/-! ### A fetch from start to end -/

theorem run_succ (worlds : ℕ → DeliveryWorld) (count : ℕ) (fetch : Fetch)
    (state : DurableBrokerState) :
    fetch.run worlds (count + 1) state =
      (fetch.run worlds count state).2.advance
        (worlds (fetch.run worlds count state).2.reserved.length)
        (fetch.run worlds count state).1 := by
  induction count generalizing fetch state with
  | zero => rfl
  | succ count ih =>
    rw [run, ih]
    rfl

theorem run_returned {exit : FetchExit} (returned : fetch.phase = .returned exit) (count : ℕ) :
    fetch.run worlds count state = (state, fetch) := by
  induction count with
  | zero => rfl
  | succ count ih =>
    rw [run_succ, ih, advance, returned]

/-- What a fetch has reserved is what it has prepared and what it reads; a message that
did not fit is no longer among them. Up to then all of them are reserved. -/
def Accounted (fetch : Fetch) (state : DurableBrokerState) : Prop :=
  match fetch.phase with
  | .reserving => fetch.reserved.map (·.seq) = fetch.prepared.map (·.seq) ∧
      ∀ seq ∈ fetch.held, state.holdings.Reserved fetch.consumerId seq
  | .loading candidate => fetch.prepared.length < fetch.maxMessages ∧
      fetch.reserved.map (·.seq) = fetch.prepared.map (·.seq) ++ [candidate.seq] ∧
      ∀ seq ∈ fetch.held, state.holdings.Reserved fetch.consumerId seq
  | .committing => ∃ rest, fetch.reserved.map (·.seq) = fetch.prepared.map (·.seq) ++ rest
  | .returned _ => True

theorem accounted_advance (accounted : fetch.Accounted state) (world : DeliveryWorld) :
    (fetch.advance world state).2.Accounted (fetch.advance world state).1 := by
  have step := fetch.advance_steps world state
  generalize fetch.advance world state = next at step ⊢
  cases step with
  | full phase | nothing phase =>
    simp only [Accounted, phase] at accounted
    exact ⟨[], by rw [append_nil]; exact accounted.1⟩
  | unknown | unread | overflow => trivial
  | reserves phase room after candidate found =>
    simp only [Accounted, phase] at accounted
    obtain ⟨reserved, owned⟩ := accounted
    obtain ⟨changed, consumer, known, -⟩ := Holdings.reservePullCandidate_some found
    have present : (state.holdings fetch.consumerId).isSome := by
      rw [holdings_of_get? known]
      rfl
    refine ⟨room, ?_, ?_⟩
    · rw [map_append, reserved]
      rfl
    · intro seq member
      rw [held_loading rfl, ← held_reserving phase, mem_append, mem_singleton] at member
      rw [changed, Holdings.reserved_reserve present]
      rcases member with old | rfl
      · exact .inl (owned seq old)
      · exact .inr ⟨rfl, rfl⟩
  | tooLarge candidate phase =>
    simp only [Accounted, phase] at accounted
    exact ⟨_, accounted.2.1⟩
  | prepares candidate phase =>
    simp only [Accounted, phase] at accounted
    obtain ⟨-, reserved, owned⟩ := accounted
    rw [held_loading phase] at owned
    refine ⟨?_, ?_⟩
    · rw [reserved, map_append]
      rfl
    · rw [held_reserving rfl, map_append]
      exact owned
  | commits =>
    obtain ⟨exit, left, -⟩ := Holdings.commit_ends fetch state
    rw [left]
    trivial
  | returned => exact accounted

theorem accounted_run (accounted : fetch.Accounted state) (count : ℕ) :
    (fetch.run worlds count state).2.Accounted (fetch.run worlds count state).1 := by
  induction count with
  | zero => exact accounted
  | succ count ih =>
    rw [run_succ]
    exact accounted_advance ih _

/-- The number of steps a fetch has left at most. -/
def stepsLeft (fetch : Fetch) : ℕ :=
  match fetch.phase with
  | .reserving => 2 * (fetch.maxMessages - fetch.prepared.length) + 2
  | .loading _ => 2 * (fetch.maxMessages - fetch.prepared.length) + 1
  | .committing => 1
  | .returned _ => 0

theorem stepsLeft_advance (accounted : fetch.Accounted state) (world : DeliveryWorld)
    (running : ∀ exit, fetch.phase ≠ .returned exit) :
    (fetch.advance world state).2.stepsLeft < fetch.stepsLeft := by
  have step := fetch.advance_steps world state
  generalize fetch.advance world state = next at step ⊢
  cases step with
  | full phase | nothing phase | unknown phase | reserves phase =>
    simp only [stepsLeft, leave, phase]
    omega
  | unread candidate phase | overflow candidate phase =>
    simp only [stepsLeft, leave, phase]
    omega
  | tooLarge candidate phase =>
    simp only [Accounted, phase] at accounted
    simp only [stepsLeft, phase]
    omega
  | prepares candidate phase =>
    simp only [Accounted, phase] at accounted
    simp only [stepsLeft, phase, length_append, length_singleton]
    omega
  | commits phase =>
    obtain ⟨exit, left, -⟩ := Holdings.commit_ends fetch state
    rw [left]
    simp only [stepsLeft, leave, phase]
    omega
  | returned exit phase => exact absurd phase (running exit)

/-- The last step of a fetch that nothing else comes between. -/
structure LastStep (worlds : ℕ → DeliveryWorld) (fetch : Fetch) (state : DurableBrokerState)
    (before after : DurableBrokerState × Fetch) : Prop where
  reached : ∃ count, fetch.run worlds count state = before
  running : ∀ exit, before.2.phase ≠ .returned exit
  last : before.2.advance (worlds before.2.reserved.length) before.1 = after
  ended : ∃ exit, after.2.phase = .returned exit

theorem run_lastStep (count : ℕ) (accounted : fetch.Accounted state)
    (enough : fetch.stepsLeft ≤ count) (running : ∀ exit, fetch.phase ≠ .returned exit) :
    ∃ before, LastStep worlds fetch state before (fetch.run worlds count state) := by
  induction count generalizing fetch state with
  | zero =>
    have some := stepsLeft_advance accounted (worlds 0) running
    omega
  | succ count ih =>
    have next := accounted_advance accounted (worlds fetch.reserved.length)
    have fewer := stepsLeft_advance accounted (worlds fetch.reserved.length) running
    by_cases finished : ∃ exit,
        (fetch.advance (worlds fetch.reserved.length) state).2.phase = .returned exit
    · obtain ⟨exit, returned⟩ := finished
      refine ⟨(state, fetch), ⟨0, rfl⟩, running, ?_, exit, ?_⟩
      · exact (run_returned returned count).symm
      · rw [run]
        simp only [run_returned returned count]
        exact returned
    · obtain ⟨before, ⟨reached, same⟩, still, last, ended⟩ :=
        ih next (by omega) fun exit returned => finished ⟨exit, returned⟩
      exact ⟨before, ⟨reached + 1, same⟩, still, last, ended⟩

end Fetch

/-! ### What stays reserved -/

/-- A message could not be read, or the journal refused the batch. -/
def FetchExit.Failed : FetchExit → Prop
  | .loadFailed _ => True
  | .commitFailed failure => failure = .error "appending WAL record"
  | _ => False

namespace Fetch

variable {worlds : ℕ → DeliveryWorld} {fetch : Fetch} {state : DurableBrokerState}

/-- Nothing that the fetch reserved is reserved any more. -/
def Released (fetch : Fetch) (state : DurableBrokerState) : Prop :=
  ∀ candidate ∈ fetch.reserved, ¬ state.holdings.Reserved fetch.consumerId candidate.seq

/-- The fetch is reading a message and has prepared no other. -/
def ReadsOnly (fetch : Fetch) : Prop :=
  ∃ candidate, fetch.phase = .loading candidate ∧
    ∀ other ∈ fetch.prepared, other.seq = candidate.seq

theorem unread_released_iff (accounted : fetch.Accounted state) {candidate : Candidate}
    (phase : fetch.phase = .loading candidate) (exit : FetchExit) :
    (fetch.leave exit).Released (state.releasePullCandidate fetch.consumerId candidate.seq) ↔
      fetch.ReadsOnly := by
  simp only [Accounted, phase] at accounted
  obtain ⟨-, reserved, owned⟩ := accounted
  rw [held_loading phase] at owned
  have released : (state.releasePullCandidate fetch.consumerId candidate.seq).holdings =
      state.holdings.alter fetch.consumerId (·.release candidate.seq) :=
    holdings_modifyConsumer fetch.consumerId fun _ _ => rfl
  have listed : ∀ seq, (∃ one ∈ fetch.reserved, one.seq = seq) ↔
      seq ∈ fetch.prepared.map (·.seq) ++ [candidate.seq] := by
    intro seq
    rw [← reserved, mem_map]
  constructor
  · intro free
    refine ⟨candidate, phase, fun other member => ?_⟩
    by_contra different
    have prepared : other.seq ∈ fetch.prepared.map (·.seq) ++ [candidate.seq] :=
      mem_append_left _ (mem_map_of_mem member)
    obtain ⟨one, member, same⟩ := (listed other.seq).mpr prepared
    apply free one member
    rw [released, same]
    exact Holdings.reserved_release.mpr ⟨owned _ prepared, fun equal => different equal.2⟩
  · rintro ⟨same, samePhase, only⟩ one member
    obtain rfl := FetchPhase.loading.inj (phase.symm.trans samePhase)
    have all : one.seq = candidate.seq := by
      rcases mem_append.mp ((listed one.seq).mp ⟨one, member, rfl⟩) with old | last
      · obtain ⟨other, prepared, equal⟩ := mem_map.mp old
        rw [← equal]
        exact only other prepared
      · exact mem_singleton.mp last
    rw [released, all, Holdings.reserved_release]
    exact fun kept => kept.2 ⟨rfl, rfl⟩

/-- A batch that the journal refused is reserved again. -/
theorem not_released_of_refused (accounted : fetch.Accounted state)
    (phase : fetch.phase = .committing) {exit : FetchExit}
    (ended : (fetch.commit state).2.phase = .returned exit) (failed : exit.Failed) :
    ¬ (fetch.commit state).2.Released (fetch.commit state).1 := by
  obtain ⟨told, left, ends⟩ := Holdings.commit_ends fetch state
  rw [left] at ended ⊢
  obtain rfl := FetchPhase.returned.inj ended
  simp only [Accounted, phase] at accounted
  obtain ⟨rest, reserved⟩ := accounted
  cases ends with
  | nothing _ _ well | leased _ _ well =>
    cases told with
    | loadFailed failure => exact absurd rfl (well failure).2
    | commitFailed failure => exact absurd rfl (well failure).1
    | _ => exact failed.elim
  | failed failure some fails same =>
    subst same
    cases fails with
    | unknown told => exact absurd (told.symm.trans failed) (by decide)
    | unreserved told => exact absurd (told.symm.trans failed) (by decide)
    | refused _ same holding known inside =>
      intro free
      obtain ⟨first, others, split⟩ := exists_cons_of_ne_nil some
      have member : first.seq ∈ fetch.reserved.map (·.seq) := by
        rw [reserved, split]
        exact mem_cons_self
      obtain ⟨one, listed, equal⟩ := mem_map.mp member
      apply free one listed
      rw [same, equal]
      refine ⟨holding, known, inside ?_⟩
      rw [split, Holdings.seqs_cons]
      exact Finset.mem_insert_self _ _

/-- A failed fetch has given everything back only if it prepared no other message than
the one it could not read. -/
theorem released_iff (accounted : fetch.Accounted state) (world : DeliveryWorld) {exit : FetchExit}
    (running : ∀ exit, fetch.phase ≠ .returned exit)
    (ended : (fetch.advance world state).2.phase = .returned exit) (failed : exit.Failed) :
    (fetch.advance world state).2.Released (fetch.advance world state).1 ↔ fetch.ReadsOnly := by
  have step := fetch.advance_steps world state
  generalize fetch.advance world state = next at step ended ⊢
  cases step with
  | full | nothing | reserves | tooLarge | prepares => cases ended
  | unknown | overflow =>
    obtain rfl := FetchPhase.returned.inj ended
    exact failed.elim
  | unread candidate phase => exact unread_released_iff accounted phase _
  | commits phase =>
    refine iff_of_false (not_released_of_refused accounted phase ended failed) ?_
    rintro ⟨candidate, other, -⟩
    rw [phase] at other
    cases other
  | returned exit phase => exact absurd phase (running exit)

end Fetch

/-- A fetch always comes to an end. If it fails because a message cannot be read or the
journal refuses the batch, then nothing it reserved stays reserved if and only if,
before its last step, it was reading a message and had prepared no other. -/
theorem fetchPullOnce_released_iff (worlds : ℕ → DeliveryWorld) (consumerId : String)
    (maxMessages maxBytes maxEncodedBytes : ℕ) (partitions : Option (Finset ℕ))
    (state : DurableBrokerState) :
    let fetch := Fetch.start consumerId maxMessages maxBytes maxEncodedBytes partitions
    let call := fetchPullOnce worlds consumerId maxMessages maxBytes maxEncodedBytes partitions
      state
    ∃ before, Fetch.LastStep worlds fetch state before call ∧ ∀ exit,
      call.2.phase = .returned exit → exit.Failed →
        (call.2.Released call.1 ↔ before.2.ReadsOnly) := by
  intro fetch call
  have accounted : fetch.Accounted state := ⟨rfl, fun _ member => absurd member not_mem_nil⟩
  obtain ⟨before, ends⟩ : ∃ before, Fetch.LastStep worlds fetch state before call :=
    Fetch.run_lastStep fetch.steps accounted (le_refl _) (fun exit => nofun)
  refine ⟨before, ends, fun exit ended failed => ?_⟩
  obtain ⟨⟨count, rfl⟩, running, last, -⟩ := ends
  rw [← last] at ended ⊢
  exact Fetch.released_iff (Fetch.accounted_run accounted count) _ running ended failed

/-- The second message cannot be read, and the first one stays reserved. -/
theorem unread_message_keeps_reservation :
    ¬ ∀ (worlds : ℕ → DeliveryWorld) (consumerId : String)
      (maxMessages maxBytes maxEncodedBytes : ℕ) (partitions : Option (Finset ℕ))
      (state : DurableBrokerState) (exit : FetchExit),
      let call := fetchPullOnce worlds consumerId maxMessages maxBytes maxEncodedBytes partitions
        state
      call.2.phase = .returned exit → exit.Failed → call.2.Released call.1 := by
  intro released
  let world : DeliveryWorld := { DeliveryRun.stillWorld with
    load := fun message => if message.seq = 2 then .error (.error "read failed") else .ok message }
  let call := fetchPullOnce (fun _ => world) "c" 2 100 1000 none (DeliveryRun.twoPending 16).broker
  have failed : (match call.2.phase with
      | .returned (.loadFailed _) => true
      | _ => false) = true := by decide +kernel
  have kept : (call.2.consumerId = "c" ∧ call.2.reserved.any (·.seq = 1) = true) ∧
      (call.1.consumers.get? "c").any (fun consumer => decide (1 ∈ consumer.preparing)) = true := by
    decide +kernel
  have free : ∀ exit, call.2.phase = .returned exit → exit.Failed → call.2.Released call.1 :=
    released (fun _ => world) "c" 2 100 1000 none _
  simp only [any_eq_true, Option.any_eq_true, decide_eq_true_eq] at kept
  obtain ⟨⟨own, candidate, listed, first⟩, consumer, found, member⟩ := kept
  have reserved : call.1.holdings.Reserved call.2.consumerId candidate.seq := by
    rw [own, first]
    exact ⟨consumer.holding, holdings_of_get? found, member⟩
  cases ended : call.2.phase with
  | returned exit =>
    rw [ended] at failed
    cases exit with
    | loadFailed failure => exact free (.loadFailed failure) ended trivial candidate listed reserved
    | _ => cases failed
  | _ =>
    rw [ended] at failed
    cases failed

end Morrow
