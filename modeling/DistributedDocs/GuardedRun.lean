import Mathlib.Data.List.Basic
import Mathlib.Data.List.Induction

namespace DistributedDocs

/-!
# Guarded runs of a transition function

A system is a total function from a state and an action to the next state; a
run is a finite list of actions.  A guard is a condition on a state and the
action about to be taken there.  The invariant rule below is the only induction
on runs that the later modules need: they supply what one step preserves.
-/

variable {State Action : Type*}

/-- The state reached from `start` by taking `actions` in order. -/
def runFrom
    (step : State → Action → State)
    (start : State)
    (actions : List Action) : State :=
  actions.foldl step start

/-- Every action of the run meets the guard in the state it is taken in. -/
def GuardedRun
    (step : State → Action → State)
    (guard : State → Action → Prop) :
    State → List Action → Prop
  | _, [] =>
      True
  | state, action :: rest =>
      guard state action ∧
        GuardedRun step guard (step state action) rest

@[simp] theorem runFrom_nil
    (step : State → Action → State)
    (start : State) :
    runFrom step start [] = start :=
  rfl

@[simp] theorem runFrom_cons
    (step : State → Action → State)
    (start : State)
    (action : Action)
    (rest : List Action) :
    runFrom step start (action :: rest) =
      runFrom step (step start action) rest :=
  rfl

theorem runFrom_append
    (step : State → Action → State)
    (start : State)
    (first second : List Action) :
    runFrom step start (first ++ second) =
      runFrom step (runFrom step start first) second := by
  simp [runFrom, List.foldl_append]

/-- What every step preserves holds at the end of every run. -/
theorem runFrom_invariant
    {step : State → Action → State}
    {Invariant : State → Prop}
    (preserved :
      ∀ state action, Invariant state → Invariant (step state action))
    {start : State}
    (initially : Invariant start)
    (actions : List Action) :
    Invariant (runFrom step start actions) := by
  induction actions generalizing start with
  | nil =>
      exact initially
  | cons action rest inductionHypothesis =>
      exact inductionHypothesis (preserved start action initially)

namespace GuardedRun

variable
  {step : State → Action → State}
  {guard : State → Action → Prop}

instance decidable
    [∀ state action, Decidable (guard state action)] :
    ∀ start actions, Decidable (GuardedRun step guard start actions)
  | _, [] =>
      isTrue trivial
  | state, action :: rest =>
      have := GuardedRun.decidable (step state action) rest
      inferInstanceAs
        (Decidable
          (guard state action ∧
            GuardedRun step guard (step state action) rest))

/-- A concatenation is guarded exactly when both halves are. -/
theorem append_iff
    {start : State}
    {first second : List Action} :
    GuardedRun step guard start (first ++ second) ↔
      GuardedRun step guard start first ∧
        GuardedRun step guard (runFrom step start first) second := by
  induction first generalizing start with
  | nil =>
      simp [GuardedRun]
  | cons action rest inductionHypothesis =>
      simp [GuardedRun, inductionHypothesis, and_assoc]

/-- Weakening the guard keeps a run guarded. -/
theorem mono
    {weaker : State → Action → Prop}
    (weakens : ∀ state action, guard state action → weaker state action)
    {start : State}
    {actions : List Action}
    (guarded : GuardedRun step guard start actions) :
    GuardedRun step weaker start actions := by
  induction actions generalizing start with
  | nil =>
      trivial
  | cons action rest inductionHypothesis =>
      exact ⟨weakens start action guarded.1,
        inductionHypothesis guarded.2⟩

/-- A run that meets two guards meets both at once. -/
theorem and
    {other : State → Action → Prop}
    {start : State}
    {actions : List Action}
    (guarded : GuardedRun step guard start actions)
    (also : GuardedRun step other start actions) :
    GuardedRun step (fun state action => guard state action ∧ other state action)
      start actions := by
  induction actions generalizing start with
  | nil =>
      trivial
  | cons action rest inductionHypothesis =>
      exact ⟨⟨guarded.1, also.1⟩,
        inductionHypothesis guarded.2 also.2⟩

/-- A condition on the actions alone is a guard. -/
theorem of_forall_mem
    {allowed : Action → Prop}
    {start : State}
    {actions : List Action}
    (allows : ∀ action ∈ actions, allowed action) :
    GuardedRun step (fun _ action => allowed action) start actions := by
  induction actions generalizing start with
  | nil =>
      trivial
  | cons action rest inductionHypothesis =>
      exact ⟨allows action (.head _),
        inductionHypothesis fun later member => allows later (.tail _ member)⟩

/-- A run that is not guarded is guarded up to a step that is not. -/
theorem exists_of_not
    {start : State}
    {actions : List Action}
    (unguarded : ¬GuardedRun step guard start actions) :
    ∃ before action after,
      actions = before ++ action :: after ∧
        GuardedRun step guard start before ∧
          ¬guard (runFrom step start before) action := by
  induction actions generalizing start with
  | nil =>
      exact absurd trivial unguarded
  | cons action rest inductionHypothesis =>
      by_cases allowed : guard start action
      · obtain ⟨before, next, after, rfl, guarded, violated⟩ :=
          inductionHypothesis fun guarded => unguarded ⟨allowed, guarded⟩
        exact ⟨action :: before, next, after, rfl, ⟨allowed, guarded⟩,
          violated⟩
      · exact ⟨[], action, rest, rfl, trivial, allowed⟩

/-- What every guarded step preserves holds at the end of a guarded run. -/
theorem invariant
    {Invariant : State → Prop}
    (preserved :
      ∀ state action,
        Invariant state → guard state action →
          Invariant (step state action))
    {start : State}
    (initially : Invariant start)
    {actions : List Action}
    (guarded : GuardedRun step guard start actions) :
    Invariant (runFrom step start actions) := by
  induction actions generalizing start with
  | nil =>
      exact initially
  | cons action rest inductionHypothesis =>
      exact inductionHypothesis
        (preserved start action initially guarded.1) guarded.2

end GuardedRun

/-! ## Where something comes from -/

end DistributedDocs
