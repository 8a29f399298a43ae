import Morrow.Deliveries
import Morrow.Frames

/-!
# Fetching a batch

A fetch goes through its steps one at a time, and the broker may do other things
between them: it reserves a message, reads it from its partition log, and goes on until
it has enough or a message does not fit; then it turns its reservations into leases.
-/

namespace Morrow

open DurableBrokerState

structure PullDelivery where
  message : PublishRecord
  lease : DeliveryAttemptRecord

structure PullBatch where
  deliveries : List PullDelivery
  bytes : ℕ

/-- How a fetch ends. -/
inductive FetchExit
  | batch (fetched : PullBatch)
  | unknownConsumer
  | loadFailed (failure : Failure)
  | countOverflow
  | commitFailed (failure : Failure)
  | flushFailed (failure : Failure)

/-- What a fetch does next. -/
inductive FetchPhase
  | reserving
  | loading (candidate : Candidate)
  | committing
  | returned (exit : FetchExit)

/-- A fetch under way. What it has reserved so far is kept for the record only. -/
structure Fetch where
  consumerId : String
  maxMessages : ℕ
  maxBytes : ℕ
  maxEncodedBytes : ℕ
  partitions : Option (Finset ℕ)
  prepared : List Candidate
  bytes : ℕ
  reserved : List Candidate
  phase : FetchPhase

namespace Fetch

/-- A fetch that has not done anything yet. -/
def start (consumerId : String) (maxMessages maxBytes maxEncodedBytes : ℕ)
    (partitions : Option (Finset ℕ)) : Fetch :=
  ⟨consumerId, maxMessages, maxBytes, maxEncodedBytes, partitions, [], 0, [], .reserving⟩

/-- The fetch has room for a message and asks for one next. -/
def asks (fetch : Fetch) : Bool :=
  (fetch.phase matches .reserving) && decide (fetch.prepared.length < fetch.maxMessages)

variable (fetch : Fetch)

def leave (exit : FetchExit) : Fetch := { fetch with phase := .returned exit }

variable (world : DeliveryWorld)

def reserve (fetch : Fetch) (state : DurableBrokerState) :
    DurableBrokerState × Fetch :=
  if fetch.prepared.length < fetch.maxMessages then
    if state.consumers.contains fetch.consumerId then
      let next := state.reservePullCandidate fetch.consumerId world.logs world.now fetch.partitions
      match next.2 with
      | none => (next.1, { fetch with phase := .committing })
      | some candidate =>
        (next.1, { fetch with
          phase := .loading candidate
          reserved := fetch.reserved ++ [candidate] })
    else (state, fetch.leave .unknownConsumer)
  else (state, { fetch with phase := .committing })

/-- The length a message is expected to have in the answer. Its delivery id is not
known yet. -/
def encodedLen (candidate : Candidate) (message : PublishRecord) : ℕ :=
  durableMessageEncodedLen fetch.consumerId message candidate.attempt candidate.deadlineMs
    candidate.seq u64Max

/-- A message was read, or could not be. One that does not fit ends the batch. -/
def load (candidate : Candidate) (fetch : Fetch)
    (state : DurableBrokerState) : DurableBrokerState × Fetch :=
  match world.load candidate.message with
  | .error failure =>
    (state.releasePullCandidate fetch.consumerId candidate.seq, fetch.leave (.loadFailed failure))
  | .ok message =>
    let nextBytes := fetch.bytes + message.payload.length
    if u64Max < nextBytes then (state, fetch.leave .countOverflow)
    else if fetch.maxBytes < nextBytes ∨ fetch.maxEncodedBytes <
        saturatingAdd fetch.bytes (fetch.encodedLen candidate message) then
      (state.releasePullCandidate fetch.consumerId candidate.seq,
        { fetch with phase := .committing })
    else
      (state, { fetch with
        bytes := nextBytes
        prepared := fetch.prepared ++ [{ candidate with message := message }]
        phase := .reserving })

/-- Flush the journal and answer with the leased messages. -/
def handOut (leases : List DeliveryAttemptRecord) (fetch : Fetch) (state : DurableBrokerState) :
    DurableBrokerState × Fetch :=
  match flushDue state with
  | (state, .error failure) => (state, fetch.leave (.flushFailed failure))
  | (state, .ok ()) =>
    (state, fetch.leave (.batch ⟨(fetch.prepared.zip leases).map fun pair =>
      ⟨pair.1.message, pair.2⟩, fetch.bytes⟩))

variable (state : DurableBrokerState)

def commit : DurableBrokerState × Fetch :=
  if fetch.prepared = [] then fetch.handOut [] state
  else match commitPullDeliveries fetch.consumerId fetch.prepared state with
    | (state, .error failure) => (state, fetch.leave (.commitFailed failure))
    | (state, .ok leases) => fetch.handOut leases state

/-- One step of a fetch. -/
def advance (fetch : Fetch) (state : DurableBrokerState) :
    DurableBrokerState × Fetch :=
  match fetch.phase with
  | .reserving => fetch.reserve world state
  | .loading candidate => fetch.load world candidate state
  | .committing => fetch.commit state
  | .returned _ => (state, fetch)

/-- Everything a step of a fetch can do. -/
inductive Steps (world : DeliveryWorld) (fetch : Fetch) (state : DurableBrokerState) :
    DurableBrokerState × Fetch → Prop
  | full (phase : fetch.phase = .reserving)
      (enough : fetch.maxMessages ≤ fetch.prepared.length) :
      Steps world fetch state (state, { fetch with phase := .committing })
  | unknown (phase : fetch.phase = .reserving) :
      Steps world fetch state (state, fetch.leave .unknownConsumer)
  | nothing (phase : fetch.phase = .reserving) (after : DurableBrokerState)
      (none : state.reservePullCandidate fetch.consumerId world.logs world.now
        fetch.partitions = (after, none)) :
      Steps world fetch state (after, { fetch with phase := .committing })
  | reserves (phase : fetch.phase = .reserving)
      (room : fetch.prepared.length < fetch.maxMessages) (after : DurableBrokerState)
      (candidate : Candidate)
      (found : state.reservePullCandidate fetch.consumerId world.logs world.now
        fetch.partitions = (after, some candidate)) :
      Steps world fetch state (after, { fetch with
        phase := .loading candidate
        reserved := fetch.reserved ++ [candidate] })
  | unread (candidate : Candidate) (phase : fetch.phase = .loading candidate) (failure : Failure)
      (failed : world.load candidate.message = .error failure) :
      Steps world fetch state (state.releasePullCandidate fetch.consumerId candidate.seq,
        fetch.leave (.loadFailed failure))
  | overflow (candidate : Candidate) (phase : fetch.phase = .loading candidate) :
      Steps world fetch state (state, fetch.leave .countOverflow)
  | tooLarge (candidate : Candidate) (phase : fetch.phase = .loading candidate) :
      Steps world fetch state (state.releasePullCandidate fetch.consumerId candidate.seq,
        { fetch with phase := .committing })
  | prepares (candidate : Candidate) (phase : fetch.phase = .loading candidate)
      (message : PublishRecord) (loaded : world.load candidate.message = .ok message)
      (fits : fetch.bytes + message.payload.length ≤ fetch.maxBytes)
      (encoded : saturatingAdd fetch.bytes (fetch.encodedLen candidate message) ≤
        fetch.maxEncodedBytes) :
      Steps world fetch state (state, { fetch with
        bytes := fetch.bytes + message.payload.length
        prepared := fetch.prepared ++ [{ candidate with message := message }]
        phase := .reserving })
  | commits (phase : fetch.phase = .committing) : Steps world fetch state (fetch.commit state)
  | returned (exit : FetchExit) (phase : fetch.phase = .returned exit) :
      Steps world fetch state (state, fetch)

theorem advance_steps :
    Steps world fetch state (fetch.advance world state) := by
  simp only [advance]
  split
  · rename_i phase
    simp only [reserve]
    split
    · rename_i room
      split
      · cases answer : state.reservePullCandidate fetch.consumerId world.logs world.now
            fetch.partitions with
        | mk after found =>
          cases found with
          | none => exact .nothing phase after answer
          | some candidate => exact .reserves phase room after candidate answer
      · exact .unknown phase
    · rename_i enough
      exact .full phase (not_lt.mp enough)
  · rename_i candidate phase
    simp only [load]
    split
    · rename_i failure failed
      exact .unread candidate phase failure failed
    · rename_i message loaded
      split
      · exact .overflow candidate phase
      · split
        · exact .tooLarge candidate phase
        · rename_i small
          obtain ⟨fits, encoded⟩ := not_or.mp small
          exact .prepares candidate phase message loaded (not_lt.mp fits) (not_lt.mp encoded)
  · rename_i phase
    exact .commits phase
  · rename_i exit phase
    exact .returned exit phase

/-- A fetch that nothing else comes between. The world may be another one at each of
its reservations, but a stored message always reads the same. -/
def run (worlds : ℕ → DeliveryWorld) : ℕ → Fetch → DurableBrokerState → DurableBrokerState × Fetch
  | 0, fetch, state => (state, fetch)
  | steps + 1, fetch, state =>
    let next := fetch.advance (worlds fetch.reserved.length) state
    run worlds steps next.2 next.1

/-- Enough steps for every fetch. -/
def steps : ℕ := 2 * fetch.maxMessages + 2

end Fetch

def fetchPullOnce (worlds : ℕ → DeliveryWorld) (consumerId : String)
    (maxMessages maxBytes maxEncodedBytes : ℕ) (partitions : Option (Finset ℕ))
    (state : DurableBrokerState) : DurableBrokerState × Fetch :=
  let fetch := Fetch.start consumerId maxMessages maxBytes maxEncodedBytes partitions
  fetch.run worlds fetch.steps state

end Morrow
