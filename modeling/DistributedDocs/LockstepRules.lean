import DistributedDocs.ProgramRules

namespace DistributedDocs

/-!
# Two programs in lockstep

Two programs run in lockstep if, from related states, both return the same
value or both are left with the same error, in related states.  The rules
follow the way a program is put together, so that a relation between states is
shown once for each operation and then holds for whole programs.
-/

variable {ε σ τ α β : Type}

/-- Two runs that end alike, in related states. -/
inductive EndAlike
    (after : α → σ → τ → Prop)
    (failed : σ → τ → Prop) :
    EStateM.Result ε σ α → EStateM.Result ε τ α → Prop where
  | returned
      {value : α}
      {state : σ}
      {twin : τ}
      (related : after value state twin) :
      EndAlike after failed (.ok value state) (.ok value twin)
  | left
      {error : ε}
      {state : σ}
      {twin : τ}
      (related : failed state twin) :
      EndAlike after failed (.error error state) (.error error twin)

/-- From related states two programs end alike. -/
def Lockstep
    (before : σ → τ → Prop)
    (program : EStateM ε σ α)
    (other : EStateM ε τ α)
    (after : α → σ → τ → Prop)
    (failed : σ → τ → Prop) : Prop :=
  ∀ state twin, before state twin →
    EndAlike after failed (program state) (other twin)

theorem EndAlike.mono
    {after weakerAfter : α → σ → τ → Prop}
    {failed weakerFailed : σ → τ → Prop}
    {first : EStateM.Result ε σ α}
    {second : EStateM.Result ε τ α}
    (alike : EndAlike after failed first second)
    (returns :
      ∀ value state twin, after value state twin →
        weakerAfter value state twin)
    (leaves : ∀ state twin, failed state twin → weakerFailed state twin) :
    EndAlike weakerAfter weakerFailed first second := by
  cases alike with
  | returned related => exact .returned (returns _ _ _ related)
  | left related => exact .left (leaves _ _ related)

namespace Lockstep

variable
  {before : σ → τ → Prop}
  {failed : σ → τ → Prop}

theorem pure
    {after : α → σ → τ → Prop}
    {value : α}
    (holds : ∀ state twin, before state twin → after value state twin) :
    Lockstep before (Pure.pure value : EStateM ε σ α)
      (Pure.pure value : EStateM ε τ α) after failed :=
  fun state twin related => .returned (holds state twin related)

theorem throw
    {after : α → σ → τ → Prop}
    {error : ε}
    (holds : ∀ state twin, before state twin → failed state twin) :
    Lockstep before (MonadExcept.throw error : EStateM ε σ α)
      (MonadExcept.throw error : EStateM ε τ α) after failed :=
  fun state twin related => .left (holds state twin related)

/-- Both programs change their states, with the same result. -/
theorem modifyGet
    {after : α → σ → τ → Prop}
    {change : σ → α × σ}
    {otherChange : τ → α × τ}
    (same :
      ∀ state twin, before state twin →
        (change state).1 = (otherChange twin).1)
    (holds :
      ∀ state twin, before state twin →
        after (change state).1 (change state).2 (otherChange twin).2) :
    Lockstep before (MonadState.modifyGet change : EStateM ε σ α)
      (MonadState.modifyGet otherChange : EStateM ε τ α) after failed := by
  intro state twin related
  rw [modifyGet_apply, modifyGet_apply, ← same state twin related]
  exact .returned (holds state twin related)

theorem modify
    {after : PUnit → σ → τ → Prop}
    {change : σ → σ}
    {otherChange : τ → τ}
    (holds :
      ∀ state twin, before state twin →
        after PUnit.unit (change state) (otherChange twin)) :
    Lockstep before
      (MonadState.modifyGet fun state => (PUnit.unit, change state) :
        EStateM ε σ PUnit)
      (MonadState.modifyGet fun state => (PUnit.unit, otherChange state) :
        EStateM ε τ PUnit)
      after failed :=
  modifyGet (fun _ _ _ => rfl) holds

theorem bind
    {program : EStateM ε σ α}
    {other : EStateM ε τ α}
    {next : α → EStateM ε σ β}
    {otherNext : α → EStateM ε τ β}
    {middle : α → σ → τ → Prop}
    {after : β → σ → τ → Prop}
    (first : Lockstep before program other middle failed)
    (second :
      ∀ value,
        Lockstep (middle value) (next value) (otherNext value) after
          failed) :
    Lockstep before (program >>= next) (other >>= otherNext) after
      failed := by
  intro state twin related
  rw [bind_apply, bind_apply]
  have alike := first state twin related
  generalize program state = outcome at alike ⊢
  generalize other twin = otherOutcome at alike ⊢
  cases alike with
  | returned reached => exact second _ _ _ reached
  | left reached => exact .left reached

theorem ite
    {condition : Prop}
    [Decidable condition]
    {program program' : EStateM ε σ α}
    {other other' : EStateM ε τ α}
    {after : α → σ → τ → Prop}
    (whenTrue :
      condition → Lockstep before program other after failed)
    (whenFalse :
      ¬condition → Lockstep before program' other' after failed) :
    Lockstep before (if condition then program else program')
      (if condition then other else other') after failed := by
  split
  · next holds =>
    exact whenTrue holds
  · next fails =>
    exact whenFalse fails

/-- The rule of consequence. -/
theorem mono
    {program : EStateM ε σ α}
    {other : EStateM ε τ α}
    {stronger : σ → τ → Prop}
    {after weakerAfter : α → σ → τ → Prop}
    {weakerFailed : σ → τ → Prop}
    (lockstep : Lockstep before program other after failed)
    (enters : ∀ state twin, stronger state twin → before state twin)
    (returns :
      ∀ value state twin, after value state twin →
        weakerAfter value state twin)
    (leaves : ∀ state twin, failed state twin → weakerFailed state twin) :
    Lockstep stronger program other weakerAfter weakerFailed :=
  fun state twin related =>
    (lockstep state twin (enters state twin related)).mono returns leaves

/-- What is known of the first program alone still holds in lockstep. -/
theorem along
    {program : EStateM ε σ α}
    {other : EStateM ε τ α}
    {after : α → σ → τ → Prop}
    {known : σ → Prop}
    {found : α → σ → Prop}
    {leftWith : σ → Prop}
    (lockstep : Lockstep before program other after failed)
    (triple : Triple known program found leftWith) :
    Lockstep (fun state twin => before state twin ∧ known state) program other
      (fun value state twin => after value state twin ∧ found value state)
      (fun state twin => failed state twin ∧ leftWith state) := by
  rintro state twin ⟨related, isKnown⟩
  have alike := lockstep state twin related
  have reached := triple state isKnown
  generalize program state = outcome at alike reached ⊢
  generalize other twin = otherOutcome at alike ⊢
  cases alike with
  | returned ends => exact .returned ⟨ends, reached⟩
  | left ends => exact .left ⟨ends, reached⟩

end Lockstep

/-- What two runs of a system show, step by step. -/
def observations
    {State Action Observation : Type}
    (step : State → Action → State)
    (observe : State → Action → Observation) :
    State → List Action → List Observation
  | _, [] =>
      []
  | state, action :: rest =>
      observe state action :: observations step observe (step state action) rest

/-- Related states of two systems show the same, whatever is done. -/
theorem observations_eq
    {State Twin Action Observation : Type}
    {step : State → Action → State}
    {twinStep : Twin → Action → Twin}
    {observe : State → Action → Observation}
    {twinObserve : Twin → Action → Observation}
    {related : State → Twin → Prop}
    (stays :
      ∀ state twin action, related state twin →
        related (step state action) (twinStep twin action))
    (shows :
      ∀ state twin action, related state twin →
        observe state action = twinObserve twin action)
    {state : State}
    {twin : Twin}
    (initially : related state twin)
    (actions : List Action) :
    observations step observe state actions =
      observations twinStep twinObserve twin actions := by
  induction actions generalizing state twin with
  | nil =>
      rfl
  | cons action rest inductionHypothesis =>
      rw [observations, observations, shows state twin action initially,
        inductionHypothesis (stays state twin action initially)]

end DistributedDocs
