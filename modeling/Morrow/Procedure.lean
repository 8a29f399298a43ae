import Morrow.Machine

/-!
# Calls that change a state

A procedure reads and changes a state and may fail. What it changed before it failed
stays changed. Invariants, and pre- and postconditions, are established part by part:
what all parts of a sequence keep, the sequence keeps, and what one part arrives at is
where the next one starts.
-/

namespace Morrow

def Procedure (σ α : Type) := σ → σ × Outcome α

namespace Procedure

variable {σ α β : Type}

instance : Monad (Procedure σ) where
  pure value := fun state => (state, .ok value)
  bind call next := fun state =>
    match call state with
    | (changed, .ok value) => next value changed
    | (changed, .error failure) => (changed, .error failure)

/-- Look at the state. -/
def read (view : σ → α) : Procedure σ α := fun state => (state, .ok (view state))

def change (update : σ → σ) : Procedure σ Unit := fun state => (update state, .ok ())

/-- A call that changes the state and does not fail. -/
def answer (call : σ → σ × α) : Procedure σ α := fun state => ((call state).1, .ok (call state).2)

/-- A call elsewhere, which leaves the state alone. -/
def await (outcome : Outcome α) : Procedure σ α := fun state => (state, outcome)

theorem bind_apply (call : Procedure σ α) (next : α → Procedure σ β) (state : σ) :
    (call >>= next) state =
      match call state with
      | (changed, .ok value) => next value changed
      | (changed, .error failure) => (changed, .error failure) := rfl

variable {call : Procedure σ α} {next : α → Procedure σ β} {state changed : σ}

theorem bind_of_ok {value : α} (done : call state = (changed, .ok value)) :
    (call >>= next) state = next value changed := by
  rw [bind_apply, done]

theorem bind_of_error {failure : Failure} (failed : call state = (changed, .error failure)) :
    (call >>= next) state = (changed, .error failure) := by
  rw [bind_apply, failed]

/-- A sequence of two calls ends well exactly when both do. -/
theorem bind_eq_ok {after : σ} {result : β} : (call >>= next) state = (after, .ok result) ↔
      ∃ middle value, call state = (middle, .ok value) ∧
        next value middle = (after, .ok result) := by
  rw [bind_apply]
  cases called : call state with
  | mk changed outcome =>
    cases outcome with
    | ok value => simp
    | error failure => simp

@[simp] theorem read_bind (view : σ → α) (next : α → Procedure σ β) (state : σ) :
    (read view >>= next) state = next (view state) state := rfl

@[simp] theorem change_bind (update : σ → σ) (next : Unit → Procedure σ β) (state : σ) :
    (change update >>= next) state = next () (update state) := rfl

@[simp] theorem answer_bind (call : σ → σ × α) (next : α → Procedure σ β) (state : σ) :
    (answer call >>= next) state = next (call state).2 (call state).1 := rfl

theorem await_ok_bind (value : α) (next : α → Procedure σ β) (state : σ) :
    (await (.ok value) >>= next) state = next value state := rfl

theorem await_error_bind (failure : Failure) (next : α → Procedure σ β) (state : σ) :
    (await (.error failure) >>= next) state = (state, .error failure) := rfl

/-- A call elsewhere fails and nothing is changed, or the rest follows. -/
theorem after_await {holds : σ → Prop} {outcome : Outcome α} (refused : holds state)
    (rest : ∀ value, outcome = .ok value → holds (next value state).1) :
    holds ((await outcome >>= next) state).1 := by
  cases outcome with
  | error failure => exact refused
  | ok value => exact rest value rfl

/-- The invariant holds after the call, whether it fails or not. -/
def Keeps (holds : σ → Prop) (call : Procedure σ α) : Prop :=
  ∀ state, holds state → holds (call state).1

namespace Keeps

variable {holds : σ → Prop}

theorem pure (value : α) : Keeps holds (Pure.pure value : Procedure σ α) :=
  fun _ held => held

theorem read (view : σ → α) : Keeps holds (read view) := fun _ held => held

theorem await (outcome : Outcome α) : Keeps holds (await outcome : Procedure σ α) :=
  fun _ held => held

theorem change {update : σ → σ} (kept : ∀ state, holds state → holds (update state)) :
    Keeps holds (change update) := kept

theorem answer {call : σ → σ × α} (kept : ∀ state, holds state → holds (call state).1) :
    Keeps holds (answer call) := kept

theorem bind {call : Procedure σ α} {next : α → Procedure σ β} (first : Keeps holds call)
    (rest : ∀ value, Keeps holds (next value)) : Keeps holds (call >>= next) := by
  intro state held
  have after := first state held
  rw [bind_apply]
  cases called : call state with
  | mk changed outcome =>
    rw [called] at after
    cases outcome with
    | ok value => exact rest value changed after
    | error failure => exact after

end Keeps

/-- From a state with the first property the call comes to one with the second, or it
fails in one with the third. -/
def Triple (pre : σ → Prop) (call : Procedure σ α) (post : α → σ → Prop)
    (fails : Failure → σ → Prop) : Prop :=
  ∀ state, pre state → match call state with
    | (changed, .ok value) => post value changed
    | (changed, .error failure) => fails failure changed

namespace Triple

variable {pre : σ → Prop} {call : Procedure σ α} {post : α → σ → Prop} {fails : Failure → σ → Prop}

theorem pure {value : α} (done : ∀ state, pre state → post value state) :
    Triple pre (Pure.pure value : Procedure σ α) post fails := done

theorem change {update : σ → σ} {post : Unit → σ → Prop}
    (done : ∀ state, pre state → post () (update state)) :
    Triple pre (change update) post fails := done

theorem await {failure : Failure} (failed : ∀ state, pre state → fails failure state) :
    Triple pre (await (.error failure) : Procedure σ α) post fails := failed

/-- Look at both ways a call can end. -/
theorem of_ends (done : ∀ state changed value, pre state → call state = (changed, .ok value) →
      post value changed)
    (failed : ∀ state changed failure, pre state → call state = (changed, .error failure) →
      fails failure changed) : Triple pre call post fails := by
  intro state held
  cases called : call state with
  | mk changed outcome =>
    cases outcome with
    | ok value => exact done state changed value held called
    | error failure => exact failed state changed failure held called

variable {state changed : σ}

section

variable (triple : Triple pre call post fails)

include triple

/-- A call that ends well has its postcondition. -/
theorem ok {value : α} (held : pre state) (done : call state = (changed, .ok value)) :
    post value changed := by
  have after := triple state held
  rwa [done] at after

theorem error {failure : Failure} (held : pre state)
    (failed : call state = (changed, .error failure)) :
    fails failure changed := by
  have after := triple state held
  rwa [failed] at after

theorem strengthen {stronger : σ → Prop} (implied : ∀ state, stronger state → pre state) :
    Triple stronger call post fails :=
  fun state held => triple state (implied state held)

theorem loosen {looser : Failure → σ → Prop}
    (implied : ∀ failure state, fails failure state → looser failure state) :
    Triple pre call post looser :=
  of_ends (fun _ _ _ held done => triple.ok held done)
    fun _ _ _ held failed => implied _ _ (triple.error held failed)

theorem relax {weaker : α → σ → Prop}
    (implied : ∀ value state, post value state → weaker value state) :
    Triple pre call weaker fails :=
  of_ends (fun _ _ _ held done => implied _ _ (triple.ok held done))
    fun _ _ _ held failed => triple.error held failed

end

theorem of_fact {fact : Prop} (rest : fact → Triple pre call post fails) :
    Triple (fun state => pre state ∧ fact) call post fails :=
  fun state held => rest held.2 state held.1

theorem of_keeps (kept : Keeps pre call) (failed : ∀ failure state, pre state →
    fails failure state) : Triple pre call (fun _ => pre) fails := by
  refine of_ends (fun state changed value held done => ?_)
    fun state changed failure held ended => failed failure changed ?_
  · have after := kept state held
    rwa [done] at after
  · have after := kept state held
    rwa [ended] at after

theorem bind {next : α → Procedure σ β} {last : β → σ → Prop}
    (first : Triple pre call post fails)
    (rest : ∀ value, Triple (post value) (next value) last fails) :
    Triple pre (call >>= next) last fails := by
  intro state held
  have after := first state held
  rw [bind_apply]
  cases called : call state with
  | mk changed outcome =>
    rw [called] at after
    cases outcome with
    | ok value => exact rest value changed after
    | error failure => exact after

variable {next : β → Procedure σ α}

/-- What was read is known afterwards. -/
theorem read_bind {view : σ → β}
    (rest : ∀ value, Triple (fun state => pre state ∧ view state = value) (next value) post fails) :
    Triple pre (read view >>= next) post fails :=
  fun state held => rest (view state) state ⟨held, rfl⟩

theorem change_bind (middle : σ → Prop) {update : σ → σ} {next : Unit → Procedure σ α}
    (moved : ∀ state, pre state → middle (update state))
    (rest : Triple middle (next ()) post fails) :
    Triple pre (Procedure.change update >>= next) post fails :=
  fun state held => rest (update state) (moved state held)

theorem answer_bind (middle : β → σ → Prop) {call : σ → σ × β}
    (moved : ∀ state, pre state → middle (call state).2 (call state).1)
    (rest : ∀ value, Triple (middle value) (next value) post fails) :
    Triple pre (answer call >>= next) post fails :=
  fun state held => rest (call state).2 (call state).1 (moved state held)

theorem await_bind {outcome : Outcome β}
    (failed : ∀ failure state, outcome = .error failure → pre state → fails failure state)
    (rest : ∀ value, outcome = .ok value → Triple pre (next value) post fails) :
    Triple pre (Procedure.await outcome >>= next) post fails := by
  intro state held
  cases outcome with
  | ok value => exact rest value rfl state held
  | error failure => exact failed failure state rfl held

/-- What holds however the call ends. -/
theorem always {last : σ → Prop} (triple : Triple pre call (fun _ => last) fun _ => last)
    (held : pre state) : last (call state).1 := by
  cases called : call state with
  | mk changed outcome =>
    cases outcome with
    | ok value => exact triple.ok held called
    | error failure => exact triple.error held called

/-- What holds again however the call ends is kept by it. -/
theorem keeps (triple : Triple pre call (fun _ => pre) fun _ => pre) : Keeps pre call :=
  fun _ held => triple.always held

end Triple

/-- The call never fails and keeps the property. -/
abbrev Secures (holds : σ → Prop) (call : Procedure σ α) : Prop :=
  Triple holds call (fun _ => holds) fun _ _ => False

theorem Secures.ends {holds : σ → Prop} (secures : Secures holds call) (held : holds state) :
    holds (call state).1 ∧ ∃ value, (call state).2 = .ok value := by
  have ended := secures state held
  cases called : call state with
  | mk changed outcome =>
    rw [called] at ended
    cases outcome with
    | ok value => exact ⟨ended, value, rfl⟩
    | error failure => exact ended.elim

end Procedure

end Morrow
