import Mathlib

/-!
# Priority queues

A queue that hands out its least entry first. An entry that was put in twice is
there twice.
-/

namespace Morrow

open List

/-- The entries in the order in which they are handed out. -/
structure PriorityQueue (α : Type) [LinearOrder α] where
  entries : List α
  sorted : entries.Pairwise (· ≤ ·)

namespace PriorityQueue

variable {α : Type} [LinearOrder α]

def empty : PriorityQueue α := ⟨[], List.Pairwise.nil⟩

instance : EmptyCollection (PriorityQueue α) := ⟨empty⟩

instance : Membership α (PriorityQueue α) := ⟨fun queue entry => entry ∈ queue.entries⟩

variable (queue : PriorityQueue α)

def push (entry : α) : PriorityQueue α :=
  ⟨queue.entries.orderedInsert (· ≤ ·) entry, queue.sorted.orderedInsert entry _⟩

/-- The entry that is handed out next. -/
def peek? : Option α := queue.entries.head?

def pop : PriorityQueue α :=
  ⟨queue.entries.tail, queue.sorted.tail⟩

def size : ℕ := queue.entries.length

def ofList (entries : List α) : PriorityQueue α :=
  entries.foldl push ∅

/-- Hand out entries as long as they are of the given kind. -/
def discard (stale : α → Bool) (queue : PriorityQueue α) : PriorityQueue α :=
  ⟨queue.entries.dropWhile stale, queue.sorted.sublist (dropWhile_sublist stale)⟩

variable {queue : PriorityQueue α} {entry other : α}

theorem mem_iff : entry ∈ queue ↔ entry ∈ queue.entries := Iff.rfl

@[simp] theorem notMem_empty : entry ∉ (∅ : PriorityQueue α) := not_mem_nil

@[simp] theorem mem_push : other ∈ queue.push entry ↔ other = entry ∨ other ∈ queue := by
  simp only [mem_iff, push, mem_orderedInsert]

theorem mem_foldl_push (entries : List α) (start : PriorityQueue α) :
    entry ∈ entries.foldl push start ↔ entry ∈ entries ∨ entry ∈ start := by
  induction entries generalizing start with
  | nil => simp
  | cons first rest ih =>
    rw [foldl_cons, ih, mem_push, mem_cons]
    tauto

@[simp] theorem mem_ofList {entries : List α} : entry ∈ ofList entries ↔ entry ∈ entries := by
  rw [ofList, mem_foldl_push, or_iff_left notMem_empty]

/-- What is handed out next is not above any entry. -/
theorem peek?_le (top : queue.peek? = some entry) (member : other ∈ queue) : entry ≤ other := by
  obtain ⟨rest, split⟩ := List.head?_eq_some_iff.mp top
  have sorted := queue.sorted
  rw [mem_iff, split] at member
  rw [split] at sorted
  rcases mem_cons.mp member with rfl | later
  · exact le_refl _
  · exact rel_of_pairwise_cons sorted later

theorem peek?_eq_none (gone : queue.peek? = none) : other ∉ queue := by
  rw [mem_iff, List.head?_eq_none_iff.mp gone]
  exact not_mem_nil

/-- All other entries stay when one is handed out. -/
theorem mem_pop_of_ne (top : queue.peek? = some entry) (member : other ∈ queue)
    (different : other ≠ entry) : other ∈ queue.pop := by
  obtain ⟨rest, split⟩ := List.head?_eq_some_iff.mp top
  rw [mem_iff, split] at member
  simp only [mem_iff, pop, split, tail_cons]
  exact (mem_cons.mp member).resolve_left different

/-- An entry of another kind is not discarded. -/
theorem mem_discard {stale : α → Bool} (member : entry ∈ queue) (live : stale entry = false) :
    entry ∈ queue.discard stale := by
  rw [mem_iff] at member
  rw [← takeWhile_append_dropWhile (p := stale) (l := queue.entries)] at member
  rcases mem_append.mp member with early | late
  · rw [mem_takeWhile_imp early] at live
    cases live
  · exact late

/-- What is handed out next after discarding is not of the discarded kind. -/
theorem peek?_discard {stale : α → Bool} (top : (queue.discard stale).peek? = some entry) :
    stale entry = false := by
  have found := List.head?_dropWhile_not stale queue.entries
  rw [peek?, discard] at top
  simpa [top] using found

end PriorityQueue

end Morrow
