import Mathlib.Data.List.Find
import Mathlib.Data.List.MinMax
import Mathlib.Data.List.Rotate

namespace DistributedDocs

/-!
# Choosing in turn

The entries of a list are looked at in cyclic order from a position on, and
the first that is due is chosen; the next choice starts behind it.  As long as
the same entries are due, they are chosen in turn.
-/

section Choosing

variable {α : Type*}

/--
The first entry that is due at or after a position, in cyclic order, and where
it stands.
-/
def nextDue
    (due : α → Bool)
    (entries : List α)
    (start : Nat) : Option (α × Nat) :=
  (entries.zipIdx.rotate start).find? fun entry => due entry.1

/-- The entries that a number of choices give. -/
def turns
    (due : α → Bool)
    (entries : List α) : Nat → Nat → List α
  | 0, _ =>
      []
  | calls + 1, start =>
      match nextDue due entries start with
      | some (entry, position) =>
          entry :: turns due entries calls (position + 1)
      | none => []

variable
  {due : α → Bool}
  {entries : List α}
  {start : Nat}

theorem map_fst_zipIdx_rotate
    (entries : List α)
    (start : Nat) :
    (entries.zipIdx.rotate start).map Prod.fst = entries.rotate start := by
  rw [List.map_rotate, List.zipIdx_map_fst]

/-- The positions in cyclic order, from one of them on. -/
theorem map_snd_zipIdx_rotate
    (entries : List α)
    (start : Nat) :
    (entries.zipIdx.rotate start).map Prod.snd =
      (List.range entries.length).map fun offset =>
        (start + offset) % entries.length := by
  refine List.ext_getElem (by simp) fun offset _ within => ?_
  simp [List.getElem_rotate, Nat.add_comm]

theorem getElem?_of_mem_zipIdx_rotate
    {entry : α × Nat}
    (member : entry ∈ entries.zipIdx.rotate start) :
    entries[entry.2]? = some entry.1 := by
  rw [List.mem_rotate] at member
  exact List.mem_zipIdx_iff_getElem?.mp member

/-- The choice, without its position, is the first entry that is due. -/
theorem nextDue_fst :
    (nextDue due entries start).map Prod.fst =
      (entries.rotate start).find? due := by
  rw [← map_fst_zipIdx_rotate, List.find?_map]
  rfl

theorem nextDue_eq_none_iff :
    nextDue due entries start = none ↔ ∀ entry ∈ entries, due entry = false := by
  rw [← Option.map_eq_none_iff, nextDue_fst, List.find?_eq_none]
  simp only [List.mem_rotate, Bool.not_eq_true]

/-- Only the remainder of the position matters. -/
theorem nextDue_mod (due : α → Bool) (entries : List α) (start : Nat) :
    nextDue due entries (start % entries.length) = nextDue due entries start := by
  have same := List.rotate_mod entries.zipIdx start
  rw [List.length_zipIdx] at same
  rw [nextDue, same]
  rfl

theorem turns_mod (due : α → Bool) (entries : List α) (calls start : Nat) :
    turns due entries calls (start % entries.length) =
      turns due entries calls start := by
  cases calls with
  | zero =>
      rfl
  | succ calls =>
      rw [turns, turns, nextDue_mod]

/-- In cyclic order from behind an entry, the entry comes last. -/
theorem rotate_behind
    {front back : List (α × Nat)}
    {entry : α}
    {position : Nat}
    (split :
      entries.zipIdx.rotate start = front ++ (entry, position) :: back) :
    entries.zipIdx.rotate (position + 1) =
      back ++ front ++ [(entry, position)] := by
  have length := congrArg List.length split
  rw [List.length_rotate, List.length_append, List.length_cons] at length
  have within : front.length < (entries.zipIdx.rotate start).length := by
    rw [split, List.length_append, List.length_cons]
    omega
  have held :
      (entries.zipIdx.rotate start)[front.length] = (entry, position) := by
    simp [split]
  have isPosition :
      (front.length + start) % entries.length = position := by
    simp only [List.getElem_rotate, List.getElem_zipIdx, List.length_zipIdx,
      Prod.mk.injEq, Nat.zero_add] at held
    exact held.2
  calc
    entries.zipIdx.rotate (position + 1) =
        entries.zipIdx.rotate (start + (front.length + 1)) := by
      rw [← isPosition, ← List.rotate_mod, List.length_zipIdx,
        Nat.mod_add_mod, ← List.length_zipIdx (l := entries), List.rotate_mod]
      congr 1
      omega
    _ = (front ++ (entry, position) :: back).rotate (front.length + 1) := by
      rw [← List.rotate_rotate, split]
    _ = back ++ front ++ [(entry, position)] := by
      have whole :=
        List.rotate_append_length_eq (front ++ [(entry, position)]) back
      rw [List.length_append, List.length_singleton, List.append_assoc,
        List.singleton_append] at whole
      rw [whole, List.append_assoc]

/-- The entry that was chosen is the last to be chosen again. -/
theorem due_behind
    {entry : α}
    {position : Nat}
    (chosen : nextDue due entries start = some (entry, position)) :
    ∃ rest,
      (entries.rotate start).filter due = entry :: rest ∧
        (entries.rotate (position + 1)).filter due = rest ++ [entry] := by
  obtain ⟨isDue, front, back, split, before⟩ :=
    List.find?_eq_some_iff_append.mp chosen
  have noneBefore : (front.map Prod.fst).filter due = [] := by
    rw [List.filter_eq_nil_iff]
    intro other member
    obtain ⟨pair, inFront, rfl⟩ := List.mem_map.mp member
    simpa using before pair inFront
  have behind := rotate_behind split
  refine ⟨(back.map Prod.fst).filter due, ?_, ?_⟩
  · rw [← map_fst_zipIdx_rotate, split, List.map_append, List.filter_append,
      noneBefore, List.nil_append, List.map_cons, List.filter_cons_of_pos isDue]
  · rw [← map_fst_zipIdx_rotate, behind, List.map_append, List.map_append,
      List.filter_append, List.filter_append, noneBefore, List.append_nil,
      List.map_singleton, List.filter_cons_of_pos isDue, List.filter_nil]

/-- The entries that are due are chosen in cyclic order. -/
theorem turns_eq_take
    {calls : Nat}
    (enough : calls ≤ ((entries.rotate start).filter due).length) :
    turns due entries calls start =
      ((entries.rotate start).filter due).take calls := by
  induction calls generalizing start with
  | zero =>
      rfl
  | succ calls inductionHypothesis =>
      rw [turns]
      split
      · next entry position chosen =>
        obtain ⟨rest, here, behind⟩ := due_behind chosen
        rw [here, List.length_cons] at enough
        have left : calls ≤ rest.length := Nat.le_of_succ_le_succ enough
        have later :
            calls ≤ ((entries.rotate (position + 1)).filter due).length := by
          rw [behind, List.length_append]
          omega
        rw [inductionHypothesis later, here, behind, List.take_succ_cons,
          List.take_append_of_le_length left]
      · next missing =>
        have noneDue := nextDue_eq_none_iff.mp missing
        have empty : (entries.rotate start).filter due = [] := by
          rw [List.filter_eq_nil_iff]
          intro entry member
          rw [noneDue entry (List.mem_rotate.mp member)]
          exact Bool.false_ne_true
        rw [empty, List.length_nil] at enough
        omega

/-- As many choices as there are entries due give each of them. -/
theorem turns_perm (due : α → Bool) (entries : List α) (start : Nat) :
    (turns due entries (entries.filter due).length start).Perm
      (entries.filter due) := by
  have perm := (List.rotate_perm entries start).filter due
  rw [← perm.length_eq, turns_eq_take le_rfl, List.take_length]
  exact perm

end Choosing

/-! ## The first of the least -/

/-- `argmin` gives the first element that is no greater than the others. -/
theorem argmin_eq_find?
    {α β : Type*}
    [LinearOrder β]
    (weight : α → β)
    (items : List α) :
    items.argmin weight =
      items.find? fun item =>
        decide (∀ other ∈ items, weight item ≤ weight other) := by
  induction items with
  | nil =>
      rfl
  | cons first rest inductionHypothesis =>
      rw [List.argmin_cons]
      by_cases least : ∀ other ∈ first :: rest, weight first ≤ weight other
      · rw [List.find?_cons_of_pos (by simpa using least)]
        cases found : rest.argmin weight with
        | none => rfl
        | some best =>
            have member := List.mem_cons_of_mem first (List.argmin_mem found)
            exact if_neg (not_lt.mpr (least best member))
      · rw [List.find?_cons_of_neg (by simpa using least)]
        obtain ⟨other, inRest, lighter⟩ :
            ∃ other ∈ rest, weight other < weight first := by
          simpa using least
        cases found : rest.argmin weight with
        | none =>
            rw [List.argmin_eq_none.mp found] at inRest
            cases inRest
        | some best =>
            have below : weight best < weight first :=
              (List.le_of_mem_argmin inRest found).trans_lt lighter
            rw [found] at inductionHypothesis
            change (if weight best < weight first then _ else _) = _
            rw [if_pos below, inductionHypothesis]
            refine List.find?_congr fun item member => ?_
            rw [decide_eq_decide, List.forall_mem_cons]
            refine ⟨fun lightest => ⟨?_, lightest⟩, And.right⟩
            exact (lightest best (List.argmin_mem found)).trans below.le

end DistributedDocs
