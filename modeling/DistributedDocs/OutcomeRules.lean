import DistributedDocs.ProgramRules

namespace DistributedDocs

/-!
# How a program ends

What a program may return, and the errors it may be left with.  Sequencing and
branching keep to both, so that each is stated where it arises.
-/

variable {ε σ α β : Type}

/--
From every state that meets `before` the program returns a value and a state
that meet `after`, or is left with an error that meets `error`.
-/
def Yields
    (before : σ → Prop)
    (after : α → σ → Prop)
    (error : ε → Prop)
    (program : EStateM ε σ α) : Prop :=
  ∀ state, before state →
    match program state with
    | .ok value final => after value final
    | .error failure _ => error failure

namespace Yields

variable
  {before : σ → Prop}
  {after : α → σ → Prop}
  {error : ε → Prop}
  {program : EStateM ε σ α}

theorem pure
    {value : α}
    (holds : ∀ state, before state → after value state) :
    Yields before after error (Pure.pure value : EStateM ε σ α) :=
  holds

theorem throw
    {failure : ε}
    (holds : error failure) :
    Yields before after error
      (MonadExcept.throw failure : EStateM ε σ α) :=
  fun _ _ => holds

theorem bind
    {next : α → EStateM ε σ β}
    {middle : α → σ → Prop}
    {after : β → σ → Prop}
    (first : Yields before middle error program)
    (second : ∀ value, Yields (middle value) after error (next value)) :
    Yields before after error (program >>= next) := by
  intro state meets
  have reached := first state meets
  rw [bind_apply]
  cases outcome : program state with
  | ok value final =>
      rw [outcome] at reached
      exact second value final reached
  | error failure final =>
      rw [outcome] at reached
      exact reached

/-- The rule of consequence. -/
theorem mono
    {weakerBefore : σ → Prop}
    {weakerAfter : α → σ → Prop}
    (yields : Yields before after error program)
    (enters : ∀ state, weakerBefore state → before state)
    (returns : ∀ value state, after value state → weakerAfter value state) :
    Yields weakerBefore weakerAfter error program := by
  intro state meets
  have reached := yields state (enters state meets)
  cases outcome : program state with
  | ok value final =>
      rw [outcome] at reached
      exact returns value final reached
  | error failure final =>
      rw [outcome] at reached
      exact reached

/-- A step made only under a condition. -/
theorem optional
    {condition : Prop}
    [Decidable condition]
    {step : EStateM ε σ PUnit}
    {next : PUnit → EStateM ε σ β}
    {after : β → σ → Prop}
    (first : Yields before (fun _ => before) error step)
    (second : Yields before after error (next PUnit.unit)) :
    Yields before after error
      (if condition then step >>= next else next PUnit.unit) := by
  split
  · exact bind first fun _ => second
  · exact second

end Yields

end DistributedDocs
