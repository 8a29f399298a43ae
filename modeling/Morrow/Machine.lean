import Mathlib

/-!
# Machine words and failures

Counters and offsets are natural numbers; the operations at the end of their
machine type are written out where they matter. The program is built with
overflow checks, so an unchecked `+ 1` at the maximum stops the thread instead of
wrapping. A call can therefore end in a returned error or in such a stop, and the
two are kept apart.
-/

namespace Morrow

/-- `u32::MAX`. -/
def u32Max : ℕ := 2 ^ 32 - 1

/-- `u64::MAX`. -/
def u64Max : ℕ := 2 ^ 64 - 1

variable (value : ℕ)

/-- `u64::saturating_add(1)`. -/
def saturatingSucc : ℕ := if value < u64Max then value + 1 else u64Max

/-- `u64::saturating_add`. -/
def saturatingAdd (left right : ℕ) : ℕ := min (left + right) u64Max

theorem saturatingSucc_of_lt {value : ℕ} (below : value < u64Max) :
    saturatingSucc value = value + 1 := if_pos below

theorem saturatingSucc_le : saturatingSucc value ≤ value + 1 := by
  unfold saturatingSucc
  split <;> omega

theorem saturatingSucc_le_max : saturatingSucc value ≤ u64Max := by
  unfold saturatingSucc
  split <;> omega

/-- A call that does not return its result: a returned error, or a stopped thread. -/
inductive Failure
  | error (message : String)
  | panicked
deriving DecidableEq

/-- The result of a call that may fail. -/
abbrev Outcome (α : Type) := Except Failure α

/-- Refuse with a message unless the condition holds. -/
def ensure (condition : Prop) [Decidable condition] (message : String) : Outcome Unit :=
  if condition then .ok () else .error (.error message)

section Outcome

variable {α β : Type} {condition : Prop} [Decidable condition] {message : String}

theorem ensure_of (holds : condition) : ensure condition message = .ok () := if_pos holds

theorem ensure_of_not (fails : ¬ condition) :
    ensure condition message = .error (.error message) := if_neg fails

@[simp] theorem ensure_eq_ok {done : Unit} : ensure condition message = .ok done ↔ condition := by
  unfold ensure
  split <;> simp [*]

/-- A sequence of two calls succeeds exactly when both do. -/
theorem bind_eq_ok {call : Outcome α} {next : α → Outcome β} {result : β} :
    (call >>= next) = .ok result ↔ ∃ value, call = .ok value ∧ next value = .ok result := by
  cases call with
  | error failure => simp [bind, Except.bind]
  | ok value => simp [bind, Except.bind]

@[simp] theorem ok_bind (value : α) (next : α → Outcome β) :
    ((.ok value : Outcome α) >>= next) = next value := rfl

@[simp] theorem error_bind (failure : Failure) (next : α → Outcome β) :
    ((.error failure : Outcome α) >>= next) = .error failure := rfl

/-- When a call succeeds for all items of a list, every result comes from an item. -/
theorem mem_of_mapM_ok {call : α → Outcome β} {items : List α} {results : List β}
    (mapped : items.mapM call = .ok results) {result : β} (member : result ∈ results) :
    ∃ item ∈ items, call item = .ok result := by
  induction items generalizing results with
  | nil =>
    cases mapped
    cases member
  | cons item items ih =>
    rw [List.mapM_cons] at mapped
    obtain ⟨first, called, rest⟩ := bind_eq_ok.mp mapped
    obtain ⟨later, calledLater, returned⟩ := bind_eq_ok.mp rest
    cases returned
    rcases List.mem_cons.mp member with rfl | further
    · exact ⟨item, List.mem_cons_self, called⟩
    · obtain ⟨other, among, from_⟩ := ih calledLater further
      exact ⟨other, List.mem_cons_of_mem item among, from_⟩

end Outcome

theorem forall_mem_concat {α : Type} {holds : α → Prop} {items : List α} {last : α} :
    (∀ item ∈ items ++ [last], holds item) ↔ (∀ item ∈ items, holds item) ∧ holds last := by
  rw [List.forall_mem_append, List.forall_mem_singleton]

/-- Attach a message to a failed step. -/
def withContext {α : Type} (context : String) : Except String α → Outcome α
  | .ok value => .ok value
  | .error _ => .error (.error context)

/-- Report a failed step with its own message. -/
def reported {α : Type} : Except String α → Outcome α
  | .ok value => .ok value
  | .error message => .error (.error message)

@[simp] theorem withContext_ok {α : Type} (context : String) (value : α) :
    withContext context (.ok value) = .ok value := rfl

@[simp] theorem reported_ok {α : Type} (value : α) : reported (.ok value) = .ok value := rfl

end Morrow
