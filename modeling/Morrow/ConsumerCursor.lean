import Morrow.BrokerRecords
import Morrow.PartitionLog
import Morrow.Subject

/-!
# Consumer cursors

A durable consumer has one cursor in each partition of the streams it reads. The
committed offset is where its unread part begins; records beyond it that have been
acknowledged out of order are kept in a set of bounded size. The next record to
deliver is found through the frontier of a partition, the list of its matching offsets,
which is asked for once and then kept up to date as records are published and removed.
-/

namespace Morrow

open Subject

/-- Positions are compared by stream, then partition, then offset. -/
abbrev Position := String ×ₗ ℕ ×ₗ ℕ

def position (stream : String) (partition offset : ℕ) : Position :=
  toLex (stream, toLex (partition, offset))

namespace PublishRecord

variable (record : PublishRecord)

/-- Where a record stands among the records of all partitions. -/
def recordPosition : Position :=
  position (record.stream.getD "") (record.partition.getD 0) (record.offset.getD 0)

/-- The message as it is known after it was stored in its partition. -/
def ofEnvelope (envelope : MessageEnvelope) : PublishRecord where
  seq := envelope.legacySeq
  nameSpace := envelope.nameSpace
  stream := some envelope.stream.name
  partition := some envelope.partition.value
  offset := some envelope.offset
  subject := envelope.subject
  key := envelope.key
  headers := envelope.headers
  timestampMs := envelope.timestampMs
  replyTo := envelope.replyTo
  payload := envelope.payload
  partitioningEpoch := envelope.partitioningEpoch
  leaderEpoch := envelope.leaderEpoch

/-- The payload of a stream's message is read from its partition when needed. -/
def intoResidentMetadata : PublishRecord :=
  if record.stream.isSome then { record with payload := [] } else record

/-- The record belongs to the partition. -/
def inPartition (stream : String) (partition : ℕ) : Bool :=
  record.stream == some stream && record.partition == some partition

end PublishRecord

/-- The offsets of a partition's stored records that match a filter, in order. A
partition that is not configured has none. -/
def PartitionLogSet.matchingOffsets (set : PartitionLogSet) (filter stream : String)
    (partition : ℕ) : List ℕ :=
  if bounded : partition < 2 ^ 32 then
    match set.logs.get? ⟨stream, partition, bounded⟩ with
    | some log =>
      (log.records.filter (fun record => subjectMatches filter record.subject)).map (·.offset)
    | none => []
  else []

namespace PartitionCursor

def key (cursor : PartitionCursor) : String := partitionKey cursor.stream cursor.partition

/-- The first matching offset that is not committed, from the frontier. -/
def nextFrontierOffset (frontier : List ℕ) (cursor : PartitionCursor) : Option ℕ :=
  frontier.find? (cursor.committedOffset ≤ ·)

/-- The first matching offset that is not committed, from all messages. -/
def nextMatchingOffset (filter : String) (messages : OrderedMap ℕ PublishRecord)
    (cursor : PartitionCursor) : Option ℕ :=
  let matching := messages.values.filter (fun record =>
    record.inPartition cursor.stream cursor.partition && subjectMatches filter record.subject)
  ((matching.filterMap (·.offset)).filter (cursor.committedOffset ≤ ·)).min?

/-- Commit over the acknowledged offsets as long as the next one is among them. The
first argument bounds the number of steps. -/
def advanceWith (next : PartitionCursor → Option ℕ) : ℕ → PartitionCursor → PartitionCursor
  | 0, cursor => cursor
  | steps + 1, cursor =>
    match next cursor with
    | none => cursor
    | some offset =>
      if offset ∈ cursor.acknowledgedOffsets then
        advanceWith next steps
          { cursor with
            acknowledgedOffsets := cursor.acknowledgedOffsets.erase offset
            committedOffset := saturatingSucc offset }
      else cursor

/-- Every step uses up one acknowledged offset. -/
def advance (next : PartitionCursor → Option ℕ) (cursor : PartitionCursor) : PartitionCursor :=
  advanceWith next cursor.acknowledgedOffsets.card cursor

end PartitionCursor

/-- Put an offset into a frontier. The search for it is a binary search, which finds
an offset of an ordered list exactly when it is there. -/
def insertOffset (offset : ℕ) (frontier : List ℕ) : List ℕ :=
  if frontier.getLast?.all (· < offset) then frontier ++ [offset]
  else if offset ∈ frontier then frontier
  else frontier.takeWhile (· < offset) ++ offset :: frontier.dropWhile (· < offset)

namespace ConsumerCursorSet

/-- The first offset a new consumer reads. -/
def startingOffset (start : StartPosition) (stream : String) (partition : ℕ)
    (messages : OrderedMap ℕ PublishRecord) : ℕ :=
  let records := messages.values.filter (·.inPartition stream partition)
  let highWatermark := ((records.filterMap (·.offset)).max?.map saturatingSucc).getD 0
  match start with
  | .earliest => 0
  | .committed => 0
  | .latest => highWatermark
  | .offset offset => offset
  | .timestamp timestamp =>
    (((records.filter (fun record => timestamp ≤ record.timestampMs)).filterMap
      (·.offset)).min?).getD highWatermark

/-- Cursors for every partition of the streams the catalog finds for the filter. -/
def new (start : StartPosition) (ackWindow : ℕ) (streams : List StreamDefinition)
    (messages : OrderedMap ℕ PublishRecord) : ConsumerCursorSet :=
  let cursors := streams.flatMap fun stream =>
    (List.range stream.partitions.value).map fun partition =>
      ({ stream := stream.name.name
         partition := partition
         committedOffset := startingOffset start stream.name.name partition messages
         deliveredOffset := none
         acknowledgedOffsets := ∅
         retentionGaps := 0 } : PartitionCursor)
  { partitions := cursors.foldl (fun map cursor => map.insert cursor.key cursor) ∅
    ackWindow := ackWindow
    frontiers := ∅ }

variable (cursors : ConsumerCursorSet) (record : PublishRecord)

def cursorFor : Option PartitionCursor := do
  cursors.partitions.get? (partitionKey (← record.stream) (← record.partition))

/-! ### Finding the next record -/

/-- Ask the partitions for the frontiers that are not known yet. -/
def ensureFrontiers (matching : String → ℕ → List ℕ) (cursors : ConsumerCursorSet) :
    ConsumerCursorSet :=
  let missing := cursors.partitions.values.filter fun cursor =>
    !cursors.frontiers.contains cursor.key
  { cursors with
    frontiers := missing.foldl (fun frontiers cursor =>
      frontiers.insert cursor.key (matching cursor.stream cursor.partition)) cursors.frontiers }

variable (sequences : OrderedMap Position ℕ)

/-- Drop what is committed or gone from the front of every frontier. -/
def trimFrontiers (cursors : ConsumerCursorSet) :
    ConsumerCursorSet :=
  { cursors with
    frontiers := cursors.partitions.values.foldl (fun frontiers cursor =>
      frontiers.modify cursor.key (fun frontier => frontier.dropWhile (fun offset =>
        offset < cursor.committedOffset ||
          !sequences.contains (position cursor.stream cursor.partition offset))))
      cursors.frontiers }

variable (isLeased : ℕ → Bool)

/-- The message at an offset of a frontier, unless it is acknowledged, leased or gone. -/
def atOffset (cursor : PartitionCursor)
    (offset : ℕ) : Option ℕ :=
  if offset ∈ cursor.acknowledgedOffsets then none
  else (sequences.get? (position cursor.stream cursor.partition offset)).filter (!isLeased ·)

/-- The first message of a partition's frontier that may be delivered. -/
def firstOnFrontier
    (cursors : ConsumerCursorSet) (cursor : PartitionCursor) : Option ℕ := do
  let frontier ← cursors.frontiers.get? cursor.key
  frontier.findSome? (atOffset sequences isLeased cursor)

/-- Look at the frontiers only. -/
def nextIndexedCandidate (messages : OrderedMap ℕ PublishRecord)
    (sequences : OrderedMap Position ℕ) (matching : String → ℕ → List ℕ) (isLeased : ℕ → Bool)
    (cursors : ConsumerCursorSet) : ConsumerCursorSet × Option ℕ :=
  let trimmed := (cursors.ensureFrontiers matching).trimFrontiers sequences
  let found := trimmed.partitions.values.filterMap (trimmed.firstOnFrontier sequences isLeased)
  let positioned := found.filterMap fun seq =>
    (messages.get? seq).map fun record => (seq, record.recordPosition)
  (trimmed, (positioned.argmin Prod.snd).map Prod.fst)

/-! ### Following deliveries, acknowledgements, publishes and compaction -/

def markDelivered : ConsumerCursorSet :=
  match record.stream, record.partition, record.offset with
  | some stream, some partition, some offset =>
    { cursors with
      partitions := cursors.partitions.modify (partitionKey stream partition) fun cursor =>
        { cursor with deliveredOffset := some (max (cursor.deliveredOffset.getD 0) offset) } }
  | _, _, _ => cursors

variable (filter : String)

/-- The next offset to commit, from the frontier if it is known. -/
def nextOffset
    (messages : OrderedMap ℕ PublishRecord) (key : String) : PartitionCursor → Option ℕ :=
  match cursors.frontiers.get? key with
  | some frontier => PartitionCursor.nextFrontierOffset frontier
  | none => PartitionCursor.nextMatchingOffset filter messages

/-- There is room for another offset acknowledged out of order, or none is needed. -/
def Allows (ackWindow : ℕ) (next : PartitionCursor → Option ℕ) (cursor : PartitionCursor)
    (offset : ℕ) : Prop :=
  offset ∈ cursor.acknowledgedOffsets ∨ cursor.acknowledgedOffsets.card < ackWindow ∨
    next cursor = some offset

instance (ackWindow : ℕ) (next : PartitionCursor → Option ℕ) (cursor : PartitionCursor)
    (offset : ℕ) : Decidable (Allows ackWindow next cursor offset) :=
  inferInstanceAs (Decidable (_ ∨ _))

/-- Acknowledge one record. The frontier is taken out of its map for the duration
of the call and put back in every case. -/
def acknowledge
    (messages : OrderedMap ℕ PublishRecord) : Except String ConsumerCursorSet :=
  match record.offset with
  | none => .error "message has no partition offset"
  | some offset =>
    match cursors.cursorFor record with
    | none => .error "consumer has no partition cursor"
    | some cursor =>
      let key := partitionKey (record.stream.getD "") (record.partition.getD 0)
      let next := cursors.nextOffset filter messages key
      if offset < cursor.committedOffset then .ok cursors
      else if Allows cursors.ackWindow next cursor offset then
        let acknowledged :=
          { cursor with acknowledgedOffsets := insert offset cursor.acknowledgedOffsets }
        .ok { cursors with
          partitions := cursors.partitions.insert key (PartitionCursor.advance next acknowledged) }
      else .error "consumer acknowledgement window exceeded"

/-- A record was published. -/
def observePublishedRecord
    (record : PublishRecord) : ConsumerCursorSet :=
  match record.stream, record.partition, record.offset with
  | some stream, some partition, some offset =>
    if subjectMatches filter record.subject then
      { cursors with
        frontiers := cursors.frontiers.modify (partitionKey stream partition)
          (insertOffset offset) }
    else cursors
  | _, _, _ => cursors

/-- Compaction has removed a record. -/
def removeRecord (stream : String) (partition offset : ℕ) :
    ConsumerCursorSet :=
  { cursors with
    frontiers := cursors.frontiers.modify (partitionKey stream partition) (·.filter (· ≠ offset)) }

end ConsumerCursorSet

/-! ### Acknowledging without the frontier -/

namespace PartitionCursor

/-- The partition a cursor stands in. -/
def place (cursor : PartitionCursor) : String × ℕ := (cursor.stream, cursor.partition)

/-- The offsets of a partition's messages that match a filter. -/
def offsetsIn (filter : String) (messages : OrderedMap ℕ PublishRecord) (place : String × ℕ) :
    List ℕ :=
  (messages.values.filter fun record => record.inPartition place.1 place.2 &&
    subjectMatches filter record.subject).filterMap (·.offset)

variable {filter : String} {messages : OrderedMap ℕ PublishRecord} {frontier : List ℕ}
  {next other : PartitionCursor → Option ℕ}

/-- On an ascending list the first offset that is not committed is the least one. -/
theorem nextFrontierOffset_eq {cursor : PartitionCursor} (ascending : frontier.Pairwise (· < ·))
    (listed : ∀ offset, offset ∈ frontier ↔ offset ∈ offsetsIn filter messages cursor.place) :
    nextFrontierOffset frontier cursor = nextMatchingOffset filter messages cursor := by
  have first : (frontier.filter (cursor.committedOffset ≤ ·)).min? =
      (frontier.filter (cursor.committedOffset ≤ ·)).head? :=
    List.min?_eq_head? ((ascending.filter _).imp fun before => min_eq_left before.le)
  rw [nextFrontierOffset, ← List.head?_filter, ← first]
  change _ = ((offsetsIn filter messages cursor.place).filter (cursor.committedOffset ≤ ·)).min?
  ext offset
  simp only [List.min?_eq_some_iff, List.mem_filter, listed]

/-- A cursor stays in its partition. -/
theorem advanceWith_place (steps : ℕ) (cursor : PartitionCursor) :
    (advanceWith next steps cursor).place = cursor.place := by
  induction steps generalizing cursor with
  | zero => rfl
  | succ steps ih =>
    unfold advanceWith
    split
    · rfl
    · split
      · exact ih _
      · rfl

/-- Only the next offsets in its own partition matter to a cursor. -/
theorem advanceWith_congr (steps : ℕ) (cursor : PartitionCursor)
    (same : ∀ moved : PartitionCursor, moved.place = cursor.place → next moved = other moved) :
    advanceWith next steps cursor = advanceWith other steps cursor := by
  induction steps generalizing cursor with
  | zero => rfl
  | succ steps ih =>
    rw [advanceWith, advanceWith, same cursor rfl]
    split
    · rfl
    · split
      · exact ih _ same
      · rfl

end PartitionCursor

namespace ConsumerCursorSet

open PartitionCursor

/-- Acknowledge one record after another, with the answer to each; one that is refused
changes nothing. -/
def acknowledgeAll (filter : String) (messages : OrderedMap ℕ PublishRecord) :
    List PublishRecord → ConsumerCursorSet → ConsumerCursorSet × List (Option String)
  | [], cursors => (cursors, [])
  | record :: records, cursors =>
    match cursors.acknowledge record filter messages with
    | .ok next => (acknowledgeAll filter messages records next).map id (none :: ·)
    | .error reason => (acknowledgeAll filter messages records cursors).map id (some reason :: ·)

def withFrontier (key : String) (frontier : List ℕ) (cursors : ConsumerCursorSet) :
    ConsumerCursorSet :=
  { cursors with frontiers := cursors.frontiers.insert key frontier }

/-- The frontier of the partition under a key is not known; it would be the given one. -/
structure Lacks (filter : String) (messages : OrderedMap ℕ PublishRecord) (key : String)
    (frontier : List ℕ) (cursors : ConsumerCursorSet) : Prop where
  absent : cursors.frontiers.get? key = none
  ascending : frontier.Pairwise (· < ·)
  listed : ∀ cursor, cursors.partitions.get? key = some cursor → ∀ offset,
    offset ∈ frontier ↔ offset ∈ offsetsIn filter messages cursor.place

variable {filter key : String} {messages : OrderedMap ℕ PublishRecord} {frontier : List ℕ}
  {cursors after : ConsumerCursorSet} {record : PublishRecord} {cursor : PartitionCursor}

theorem cursorFor_eq_some (found : cursors.cursorFor record = some cursor) :
    cursors.partitions.get? (partitionKey (record.stream.getD "") (record.partition.getD 0)) =
      some cursor := by
  unfold cursorFor at found
  cases stream : record.stream with
  | none => simp [stream] at found
  | some stream =>
    cases partition : record.partition with
    | none => simp [stream, partition] at found
    | some partition => simpa [stream, partition] using found

section

variable (lacks : Lacks filter messages key frontier cursors)

include lacks

theorem Lacks.nextOffset {name : String}
    (found : cursors.partitions.get? name = some cursor) (moved : PartitionCursor)
    (stays : moved.place = cursor.place) :
    (cursors.withFrontier key frontier).nextOffset filter messages name moved =
      cursors.nextOffset filter messages name moved := by
  unfold ConsumerCursorSet.nextOffset withFrontier
  rw [OrderedMap.get?_insert]
  by_cases same : name = key
  · subst name
    rw [if_pos rfl, lacks.absent]
    exact nextFrontierOffset_eq lacks.ascending (stays ▸ lacks.listed cursor found)
  · rw [if_neg same]

/-- An acknowledgement moves one cursor within its partition. -/
theorem Lacks.acknowledged
    (accepted : cursors.acknowledge record filter messages = .ok after) :
    Lacks filter messages key frontier after := by
  simp only [ConsumerCursorSet.acknowledge] at accepted
  split at accepted
  · cases accepted
  · split at accepted
    · cases accepted
    · rename_i cursor found
      split at accepted
      · cases accepted
        exact lacks
      · split at accepted
        · cases accepted
          refine ⟨lacks.absent, lacks.ascending, fun known there => ?_⟩
          rw [OrderedMap.get?_insert] at there
          split at there
          · rename_i own
            cases there
            rw [advance, advanceWith_place]
            exact lacks.listed cursor (own ▸ cursorFor_eq_some found)
          · exact lacks.listed known there
        · cases accepted

/-- One acknowledgement goes the same way with the frontier. -/
theorem Lacks.acknowledge
    (record : PublishRecord) :
    (cursors.withFrontier key frontier).acknowledge record filter messages =
      (cursors.acknowledge record filter messages).map (withFrontier key frontier) := by
  have places : (cursors.withFrontier key frontier).cursorFor record =
    cursors.cursorFor record := rfl
  have window : (cursors.withFrontier key frontier).ackWindow = cursors.ackWindow := rfl
  unfold ConsumerCursorSet.acknowledge
  rw [places, window]
  cases record.offset with
  | none => rfl
  | some offset =>
    cases found : cursors.cursorFor record with
    | none => rfl
    | some cursor =>
      have here := cursorFor_eq_some found
      generalize partitionKey (record.stream.getD "") (record.partition.getD 0) = name at here ⊢
      have next := lacks.nextOffset here
      have moves := fun steps => advanceWith_congr steps
        { cursor with acknowledgedOffsets := insert offset cursor.acknowledgedOffsets } next
      have allowed : Allows cursors.ackWindow ((cursors.withFrontier key frontier).nextOffset filter
          messages name) cursor offset ↔
          Allows cursors.ackWindow (cursors.nextOffset filter messages name) cursor offset := by
        rw [Allows, Allows, next cursor rfl]
      simp only [allowed, advance, moves]
      by_cases past : offset < cursor.committedOffset
      · simp only [if_pos past]
        rfl
      by_cases room : Allows cursors.ackWindow (cursors.nextOffset filter messages name)
          cursor offset
      · simp only [if_neg past, if_pos room]
        rfl
      · simp only [if_neg past, if_neg room]
        rfl

end

/-- With the frontier of a partition or without it, acknowledgements get the same answers
and leave the same cursors. -/
theorem acknowledge_paths_agree (lacks : Lacks filter messages key frontier cursors)
    (records : List PublishRecord) :
    acknowledgeAll filter messages records (cursors.withFrontier key frontier) =
      (acknowledgeAll filter messages records cursors).map (withFrontier key frontier) id := by
  induction records generalizing cursors with
  | nil => rfl
  | cons record records ih =>
    rw [acknowledgeAll, acknowledgeAll, lacks.acknowledge]
    cases answer : cursors.acknowledge record filter messages with
    | ok after =>
      simp only [Except.map, ih (lacks.acknowledged answer)]
      rfl
    | error reason =>
      simp only [Except.map, ih lacks]
      rfl

def sampleMessage (offset : ℕ) : PublishRecord :=
  ⟨offset, "", some "orders", some 0, some offset, "orders/a", none, [], 0, none, [], 0, 0⟩

/-- Two messages, the later one acknowledged first. -/
theorem acknowledge_paths_agree_reversed :
    let cursors : ConsumerCursorSet :=
      ⟨.ofList [("orders:0", ⟨"orders", 0, 0, none, ∅, 0⟩)], 1, ∅⟩
    let acknowledge := acknowledgeAll "orders/*"
      (.ofList [(0, sampleMessage 0), (1, sampleMessage 1)]) [sampleMessage 1, sampleMessage 0]
    acknowledge (cursors.withFrontier "orders:0" [0, 1]) =
      (acknowledge cursors).map (withFrontier "orders:0" [0, 1]) id := by
  refine acknowledge_paths_agree ⟨rfl, by decide, fun cursor found offset => ?_⟩ _
  cases found
  have all : offsetsIn "orders/*" (.ofList [(0, sampleMessage 0), (1, sampleMessage 1)])
    ("orders", 0) = [0, 1] := by decide +kernel
  exact all.symm ▸ Iff.rfl

end ConsumerCursorSet

end Morrow
