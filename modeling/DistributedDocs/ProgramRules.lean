import Mathlib.Logic.Basic

namespace DistributedDocs

/-!
# Programs that stay within an effect

An effect is a reflexive and transitive relation between the state before and
the state after.  A program stays within it when every run does, whether it
returns or is left early; sequencing and branching need no further thought.
-/

variable {ε σ α β : Type}

/-- The state in which a run ends, early or not. -/
def finalState : EStateM.Result ε σ α → σ
  | .ok _ state =>
      state
  | .error _ state =>
      state

/-! ## Running a program step by step -/

section Running

variable (state : σ)

@[simp] theorem bind_apply
    (program : EStateM ε σ α)
    (next : α → EStateM ε σ β) :
    (program >>= next) state =
      match program state with
      | .ok value middle => next value middle
      | .error error middle => .error error middle := by
  simp only [Bind.bind, EStateM.bind]
  cases program state <;> rfl

theorem bind_of_ok
    {program : EStateM ε σ α}
    {next : α → EStateM ε σ β}
    {value : α}
    {middle : σ}
    (outcome : program state = .ok value middle) :
    (program >>= next) state = next value middle := by
  rw [bind_apply, outcome]

@[simp] theorem map_apply
    (change : α → β)
    (program : EStateM ε σ α) :
    (change <$> program) state =
      match program state with
      | .ok value middle => .ok (change value) middle
      | .error error middle => .error error middle := by
  simp only [Functor.map, EStateM.map]
  cases program state <;> rfl

@[simp] theorem pure_apply (value : α) :
    (pure value : EStateM ε σ α) state = .ok value state :=
  rfl

@[simp] theorem throw_apply (error : ε) :
    (throw error : EStateM ε σ α) state = .error error state :=
  rfl

@[simp] theorem get_apply :
    (get : EStateM ε σ σ) state = .ok state state :=
  rfl

@[simp] theorem modify_apply (change : σ → σ) :
    (modify change : EStateM ε σ PUnit) state =
      .ok PUnit.unit (change state) :=
  rfl

@[simp] theorem modifyGet_apply (change : σ → α × σ) :
    (modifyGet change : EStateM ε σ α) state =
      .ok (change state).1 (change state).2 :=
  rfl

end Running

/-! ## Effects -/

@[simp] theorem finalState_ok (value : α) (state : σ) :
    finalState (.ok value state : EStateM.Result ε σ α) = state :=
  rfl

@[simp] theorem finalState_error (error : ε) (state : σ) :
    finalState (.error error state : EStateM.Result ε σ α) = state :=
  rfl

/-- What a program may do to the state. -/
structure IsEffect (effect : σ → σ → Prop) : Prop where
  refl : ∀ state, effect state state
  trans :
    ∀ {first second third},
      effect first second → effect second third → effect first third

/-- Every run of the program stays within the effect. -/
def StaysWithin (effect : σ → σ → Prop) (program : EStateM ε σ α) : Prop :=
  ∀ state, effect state (finalState (program state))

/-- Every value the program returns has the property. -/
def Returns (property : α → Prop) (program : EStateM ε σ α) : Prop :=
  ∀ state value after, program state = .ok value after → property value

namespace StaysWithin

variable {effect : σ → σ → Prop}

theorem mono
    {stronger : σ → σ → Prop}
    {program : EStateM ε σ α}
    (within : StaysWithin stronger program)
    (weakens : ∀ first second, stronger first second → effect first second) :
    StaysWithin effect program :=
  fun state => weakens _ _ (within state)

section Rules

variable (isEffect : IsEffect effect)

include isEffect

theorem pure (value : α) :
    StaysWithin effect (Pure.pure value : EStateM ε σ α) :=
  isEffect.refl

theorem throw (error : ε) :
    StaysWithin effect (MonadExcept.throw error : EStateM ε σ α) :=
  isEffect.refl

theorem get :
    StaysWithin effect (MonadState.get : EStateM ε σ σ) :=
  isEffect.refl

/-- The second program only runs on values the first one can return. -/
theorem bind_returns
    {program : EStateM ε σ α}
    {next : α → EStateM ε σ β}
    {property : α → Prop}
    (first : StaysWithin effect program)
    (returns : Returns property program)
    (second : ∀ value, property value → StaysWithin effect (next value)) :
    StaysWithin effect (program >>= next) := by
  intro state
  have ended := first state
  cases outcome : program state with
  | ok value middle =>
      rw [outcome] at ended
      have later := second value (returns state value middle outcome) middle
      have joined : (program >>= next) state = next value middle := by
        simp [Bind.bind, EStateM.bind, outcome]
      rw [joined]
      exact isEffect.trans ended later
  | error error middle =>
      rw [outcome] at ended
      have stopped : (program >>= next) state = .error error middle := by
        simp [Bind.bind, EStateM.bind, outcome]
      rw [stopped]
      exact ended

theorem bind
    {program : EStateM ε σ α}
    {next : α → EStateM ε σ β}
    (first : StaysWithin effect program)
    (second : ∀ value, StaysWithin effect (next value)) :
    StaysWithin effect (program >>= next) :=
  bind_returns isEffect first (fun _ _ _ _ => trivial)
    fun value _ => second value

end Rules

theorem modify
    {change : σ → σ}
    (allowed : ∀ state, effect state (change state)) :
    StaysWithin effect (modify change : EStateM ε σ PUnit) :=
  allowed

theorem modifyGet
    {change : σ → α × σ}
    (allowed : ∀ state, effect state (change state).2) :
    StaysWithin effect (modifyGet change : EStateM ε σ α) :=
  allowed

theorem ite
    {condition : Prop}
    [Decidable condition]
    {first second : EStateM ε σ α}
    (firstWithin : StaysWithin effect first)
    (secondWithin : StaysWithin effect second) :
    StaysWithin effect (if condition then first else second) := by
  split
  · exact firstWithin
  · exact secondWithin

end StaysWithin

/-! ## Programs that are never left early -/

/-- Every run of the program returns. -/
def Completes (program : EStateM ε σ α) : Prop :=
  ∀ state, ∃ value after, program state = .ok value after

namespace Completes

theorem pure (value : α) :
    Completes (Pure.pure value : EStateM ε σ α) :=
  fun state => ⟨value, state, rfl⟩

theorem get : Completes (MonadState.get : EStateM ε σ σ) :=
  fun state => ⟨state, state, rfl⟩

theorem modify (change : σ → σ) :
    Completes (MonadState.modifyGet fun state => (PUnit.unit, change state) :
      EStateM ε σ PUnit) :=
  fun _ => ⟨_, _, rfl⟩

theorem modifyGet (change : σ → α × σ) :
    Completes (MonadState.modifyGet change : EStateM ε σ α) :=
  fun _ => ⟨_, _, rfl⟩

theorem bind
    {program : EStateM ε σ α}
    {next : α → EStateM ε σ β}
    (first : Completes program)
    (second : ∀ value, Completes (next value)) :
    Completes (program >>= next) := by
  intro state
  obtain ⟨value, middle, outcome⟩ := first state
  rw [bind_apply, outcome]
  exact second value middle

end Completes

/-! ## Triples -/

/--
From every state that meets `before` the program returns a value and a state
that meet `after`, or is left early in a state that meets `failed`.
-/
def Triple
    (before : σ → Prop)
    (program : EStateM ε σ α)
    (after : α → σ → Prop)
    (failed : σ → Prop) : Prop :=
  ∀ state, before state →
    match program state with
    | .ok value final => after value final
    | .error _ final => failed final

namespace Triple

variable
  {before : σ → Prop}
  {after : α → σ → Prop}
  {failed : σ → Prop}
  {program : EStateM ε σ α}

theorem pure
    {value : α}
    (holds : ∀ state, before state → after value state) :
    Triple before (Pure.pure value : EStateM ε σ α) after failed :=
  holds

theorem throw
    {error : ε}
    (holds : ∀ state, before state → failed state) :
    Triple before (MonadExcept.throw error : EStateM ε σ α) after failed :=
  holds

theorem modify
    {change : σ → σ}
    {after : PUnit → σ → Prop}
    (holds : ∀ state, before state → after PUnit.unit (change state)) :
    Triple before (MonadState.modifyGet fun state => (PUnit.unit, change state) :
      EStateM ε σ PUnit) after failed :=
  holds

theorem modifyGet
    {change : σ → α × σ}
    (holds :
      ∀ state, before state → after (change state).1 (change state).2) :
    Triple before (MonadState.modifyGet change : EStateM ε σ α) after
      failed :=
  holds

theorem bind
    {next : α → EStateM ε σ β}
    {middle : α → σ → Prop}
    {after : β → σ → Prop}
    (first : Triple before program middle failed)
    (second : ∀ value, Triple (middle value) (next value) after failed) :
    Triple before (program >>= next) after failed := by
  intro state meets
  have reached := first state meets
  rw [bind_apply]
  cases outcome : program state with
  | ok value final =>
      rw [outcome] at reached
      exact second value final reached
  | error error final =>
      rw [outcome] at reached
      exact reached

/-- The rule of consequence. -/
theorem mono
    {weakerBefore : σ → Prop}
    {weakerAfter : α → σ → Prop}
    {weakerFailed : σ → Prop}
    (triple : Triple before program after failed)
    (enters : ∀ state, weakerBefore state → before state)
    (returns : ∀ value state, after value state → weakerAfter value state)
    (leaves : ∀ state, failed state → weakerFailed state) :
    Triple weakerBefore program weakerAfter weakerFailed := by
  intro state meets
  have reached := triple state (enters state meets)
  cases outcome : program state with
  | ok value final =>
      rw [outcome] at reached
      exact returns value final reached
  | error error final =>
      rw [outcome] at reached
      exact leaves final reached

theorem final
    {after : σ → Prop}
    (triple : Triple before program (fun _ => after) after)
    {state : σ}
    (meets : before state) :
    after (finalState (program state)) := by
  have reached := triple state meets
  cases outcome : program state with
  | ok value final =>
      rw [outcome] at reached
      exact reached
  | error error final =>
      rw [outcome] at reached
      exact reached

end Triple

end DistributedDocs
