import Mathlib.Data.List.Nodup
import Mathlib.Logic.Function.Basic

namespace DistributedDocs

/-!
# Updates of a map at distinct keys

An update gives a key a new value, which may depend on the old value at the
key and on no other.  Updates at distinct keys may be made in any order, and
if each may be repeated, so may all of them.
-/

section Updates

variable
  {K V : Type*}
  [DecidableEq K]

/-- One update after the other. -/
def applyUpdates
    (updates : List (K × (V → V)))
    (start : K → V) : K → V :=
  updates.foldl
    (fun map update => Function.update map update.1 (update.2 (map update.1)))
    start

variable
  {updates others : List (K × (V → V))}
  {key : K}
  {change : V → V}

theorem applyUpdates_cons
    (update : K × (V → V))
    (updates : List (K × (V → V)))
    (start : K → V) :
    applyUpdates (update :: updates) start =
      applyUpdates updates
        (Function.update start update.1 (update.2 (start update.1))) :=
  rfl

/-- The value at any other key is kept. -/
theorem applyUpdates_of_not_mem
    (absent : key ∉ updates.map Prod.fst)
    (start : K → V) :
    applyUpdates updates start key = start key := by
  induction updates generalizing start with
  | nil =>
      rfl
  | cons update rest inductionHypothesis =>
      rw [List.map_cons, List.mem_cons, not_or] at absent
      rw [applyUpdates_cons, inductionHypothesis absent.2,
        Function.update_of_ne absent.1]

/-- The value at a key is what its own update makes of the old value. -/
theorem applyUpdates_of_mem
    (distinct : (updates.map Prod.fst).Nodup)
    (member : (key, change) ∈ updates)
    (start : K → V) :
    applyUpdates updates start key = change (start key) := by
  induction updates generalizing start with
  | nil =>
      cases member
  | cons update rest inductionHypothesis =>
      rw [List.map_cons, List.nodup_cons] at distinct
      rw [applyUpdates_cons]
      rcases List.mem_cons.mp member with rfl | later
      · rw [applyUpdates_of_not_mem distinct.1, Function.update_self]
      · have listed : key ∈ rest.map Prod.fst :=
          List.mem_map.mpr ⟨_, later, rfl⟩
        have apart : key ≠ update.1 := by
          rintro rfl
          exact distinct.1 listed
        rw [inductionHypothesis distinct.2 later,
          Function.update_of_ne apart]

/-- Updates at distinct keys may be made in any order. -/
theorem applyUpdates_perm
    (distinct : (updates.map Prod.fst).Nodup)
    (perm : others.Perm updates)
    (start : K → V) :
    applyUpdates others start = applyUpdates updates start := by
  have keysPerm := perm.map Prod.fst
  funext key
  by_cases listed : key ∈ updates.map Prod.fst
  · obtain ⟨⟨_, change⟩, member, rfl⟩ := List.mem_map.mp listed
    rw [applyUpdates_of_mem distinct member,
      applyUpdates_of_mem (keysPerm.nodup_iff.mpr distinct)
        (perm.mem_iff.mpr member)]
  · have absent : key ∉ others.map Prod.fst :=
      fun member => listed (keysPerm.mem_iff.mp member)
    rw [applyUpdates_of_not_mem listed, applyUpdates_of_not_mem absent]

/-- If each update may be repeated, so may all of them, in any order. -/
theorem applyUpdates_again
    (distinct : (updates.map Prod.fst).Nodup)
    (repeatable :
      ∀ update ∈ updates, ∀ value,
        update.2 (update.2 value) = update.2 value)
    (perm : others.Perm updates)
    (start : K → V) :
    applyUpdates others (applyUpdates updates start) =
      applyUpdates updates start := by
  rw [applyUpdates_perm distinct perm]
  funext key
  by_cases listed : key ∈ updates.map Prod.fst
  · obtain ⟨⟨_, change⟩, member, rfl⟩ := List.mem_map.mp listed
    rw [applyUpdates_of_mem distinct member,
      applyUpdates_of_mem distinct member]
    exact repeatable _ member _
  · rw [applyUpdates_of_not_mem listed]

end Updates

end DistributedDocs
