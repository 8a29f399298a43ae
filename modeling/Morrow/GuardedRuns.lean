import Mathlib

/-!
# Runs of a machine under a guard

A machine takes one action at a time, and its next state is a function of the state
and the action. A guard says which actions are considered in which states. A run is
any finite sequence of such actions.
-/

namespace Morrow.GuardedRuns

universe u v
variable {σ : Type u} {α : Type v} {next : σ → α → σ} {guard : σ → α → Prop}

/-- One action that the guard admits. -/
def Moves (next : σ → α → σ) (guard : σ → α → Prop) (before after : σ) : Prop :=
  ∃ action, guard before action ∧ next before action = after

/-- The states that runs lead to. -/
def Reaches (next : σ → α → σ) (guard : σ → α → Prop) : σ → σ → Prop :=
  Relation.ReflTransGen (Moves next guard)

/-- Every action of the list is admitted in the state in which its turn comes. -/
def Admits (next : σ → α → σ) (guard : σ → α → Prop) : List α → σ → Prop
  | [], _ => True
  | action :: actions, state =>
    guard state action ∧ Admits next guard actions (next state action)

instance Admits.decidable [∀ state action, Decidable (guard state action)] :
    (actions : List α) → (state : σ) → Decidable (Admits next guard actions state)
  | [], _ => .isTrue trivial
  | action :: actions, state =>
    have := Admits.decidable actions (next state action)
    inferInstanceAs (Decidable (_ ∧ _))

namespace Reaches

theorem refl (state : σ) : Reaches next guard state state := Relation.ReflTransGen.refl

variable {first last : σ}

/-- A run that starts with the given action. -/
theorem step (action : α) (admitted : guard first action)
    (rest : Reaches next guard (next first action) last) : Reaches next guard first last :=
  Relation.ReflTransGen.head ⟨action, admitted, rfl⟩ rest

/-- A list of actions that are admitted in every state. -/
theorem foldl (actions : List α) (first : σ)
    (admitted : ∀ action ∈ actions, ∀ state, guard state action) :
    Reaches next guard first (actions.foldl next first) := by
  induction actions generalizing first with
  | nil => exact refl first
  | cons action actions ih =>
    rw [List.forall_mem_cons] at admitted
    exact step action (admitted.1 first) (ih _ admitted.2)

/-- A list of actions, each admitted where its turn comes. -/
theorem of_admits {actions : List α} (admits : Admits next guard actions first) :
    Reaches next guard first (actions.foldl next first) := by
  induction actions generalizing first with
  | nil => exact refl first
  | cons action actions ih => exact step action admits.1 (ih admits.2)

/-- What every admitted action preserves holds at the end of a run. -/
theorem invariant (holds : σ → Prop)
    (preserved : ∀ state action, guard state action → holds state → holds (next state action))
    (run : Reaches next guard first last) (start : holds first) : holds last := by
  induction run with
  | refl => exact start
  | tail _ moved ih =>
    obtain ⟨action, admitted, rfl⟩ := moved
    exact preserved _ action admitted ih

/-- A preorder that every admitted action respects, as long as an invariant holds,
relates the two ends of a run. -/
theorem related (holds : σ → Prop) {relation : σ → σ → Prop}
    (preserved : ∀ state action, guard state action → holds state → holds (next state action))
    (reflexive : ∀ state, relation state state)
    (transitive : ∀ first second third, relation first second → relation second third →
      relation first third)
    (respects : ∀ state action, guard state action → holds state →
      relation state (next state action)) (run : Reaches next guard first last)
    (start : holds first) :
    relation first last := by
  have both : holds last ∧ relation first last := by
    apply invariant (fun state => holds state ∧ relation first state) _ run
    · exact ⟨start, reflexive first⟩
    · rintro state action admitted ⟨kept, sofar⟩
      exact ⟨preserved state action admitted kept,
        transitive _ _ _ sofar (respects state action admitted kept)⟩
  exact both.2

end Reaches

end Morrow.GuardedRuns
