import Mathlib.Data.List.Basic
import Mathlib.Logic.Function.Basic

namespace DistributedDocs

/-!
# The order of commands on one store

Commands name the places of a store they are about, and read and write no
other.  A run of commands is then determined by the order in which each place
sees its commands: commands that share no place can be exchanged.
-/

/-! ## Runs of commands -/

section Footprints

variable
  {State Command Name : Type}
  [DecidableEq Name]
  (apply : Command → State → Option State)
  (footprint : Command → List Name)

/-- Apply commands in order; none if one of them cannot be applied. -/
def applyAll : List Command → State → Option State
  | [], state =>
      some state
  | command :: rest, state =>
      (apply command state).bind (applyAll rest)

/-- The commands that are about a name. -/
def about (name : Name) (commands : List Command) : List Command :=
  commands.filter fun command => name ∈ footprint command

variable {apply footprint}

theorem applyAll_append
    (earlier later : List Command)
    (state : State) :
    applyAll apply (earlier ++ later) state =
      (applyAll apply earlier state).bind (applyAll apply later) := by
  induction earlier generalizing state with
  | nil =>
      rfl
  | cons command rest inductionHypothesis =>
      simp only [List.cons_append, applyAll, Option.bind_assoc]
      congr 1
      funext next
      exact inductionHypothesis next

end Footprints

/-! ## Commands that write some places -/

section Writes

variable
  {Name Value Command : Type}
  [DecidableEq Name]

/-- Write values at places, one after the other. -/
def writeAt (updates : List (Name × Value)) (store : Name → Value) :
    Name → Value :=
  updates.foldl (fun current update =>
    Function.update current update.1 update.2) store

@[simp] theorem writeAt_nil (store : Name → Value) :
    writeAt [] store = store :=
  rfl

@[simp] theorem writeAt_cons
    (update : Name × Value)
    (rest : List (Name × Value))
    (store : Name → Value) :
    writeAt (update :: rest) store =
      writeAt rest (Function.update store update.1 update.2) :=
  rfl

theorem writeAt_of_not_mem
    {updates : List (Name × Value)}
    {name : Name}
    (outside : name ∉ updates.map Prod.fst)
    (store : Name → Value) :
    writeAt updates store name = store name := by
  induction updates generalizing store with
  | nil =>
      rfl
  | cons update rest inductionHypothesis =>
      rw [List.map_cons, List.mem_cons, not_or] at outside
      rw [writeAt_cons, inductionHypothesis outside.2,
        Function.update_of_ne outside.1]

/-- What a command writes depends on the places it is about only. -/
structure IsLocal
    (effect : Command → (Name → Value) → Option (List (Name × Value)))
    (footprint : Command → List Name) : Prop where
  reads :
    ∀ command store other,
      (∀ name ∈ footprint command, store name = other name) →
        effect command store = effect command other
  writes :
    ∀ command store updates,
      effect command store = some updates →
        ∀ name ∈ updates.map Prod.fst, name ∈ footprint command

/-- Apply a command: write what it writes. -/
def applyEffect
    (effect : Command → (Name → Value) → Option (List (Name × Value)))
    (command : Command)
    (store : Name → Value) : Option (Name → Value) :=
  (effect command store).map fun updates => writeAt updates store

variable
  {effect : Command → (Name → Value) → Option (List (Name × Value))}
  {footprint : Command → List Name}

end Writes

end DistributedDocs
