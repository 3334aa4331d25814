import Mathlib.Data.List.Basic
import Mathlib.Data.List.Nodup

namespace DistributedDocs

/-!
# Texts with replaceable slots

Several writers own disjoint parts of one text.  The text is a list of slots,
each preceded by a gap nobody owns, and a final tail.  A writer replaces the
body of its own slot; rendering the slots gives the flat text back, in which
the same replacement is a splice at the slot's present offset.
-/

/-- Put `replacement` in place of the elements of `text` from `start` to `stop`. -/
def splice (text : List α) (start stop : Nat) (replacement : List α) :
    List α :=
  text.take start ++ replacement ++ text.drop stop

/-- The elements of a text from `start` up to `stop`. -/
def slice (text : List α) (start stop : Nat) : List α :=
  (text.drop start).take (stop - start)

/-- A part of a text owned by `key`, with the unowned text before it. -/
structure Slot (Key α : Type) where
  gap : List α
  key : Key
  body : List α
  deriving Repr, DecidableEq

namespace Slot

variable {Key α : Type}

section Filling

variable [DecidableEq Key]

/-- The flat text of slots and a tail. -/
def render (slots : List (Slot Key α)) (tail : List α) : List α :=
  (slots.flatMap fun slot => slot.gap ++ slot.body) ++ tail

/-- The keys in textual order. -/
def keys (slots : List (Slot Key α)) : List Key :=
  slots.map Slot.key

/-- The position of the slot of `key` in the flat text. -/
def offset (key : Key) : List (Slot Key α) → Nat
  | [] =>
      0
  | slot :: rest =>
      if slot.key = key then
        slot.gap.length
      else
        slot.gap.length + slot.body.length + offset key rest

/-- The text in the slot of `key`. -/
def bodyOf (key : Key) : List (Slot Key α) → List α
  | [] =>
      []
  | slot :: rest =>
      if slot.key = key then slot.body else bodyOf key rest

/-- Replace the text in the slot of `key`. -/
def fill
    (key : Key)
    (replacement : List α)
    (slots : List (Slot Key α)) : List (Slot Key α) :=
  slots.map fun slot =>
    if slot.key = key then { slot with body := replacement } else slot

/-- The slot of `first` stands before the slot of `second`. -/
def Precedes (first second : Key) (slots : List (Slot Key α)) : Prop :=
  [first, second].Sublist (keys slots)

@[simp] theorem keys_fill
    (key : Key)
    (replacement : List α)
    (slots : List (Slot Key α)) :
    keys (fill key replacement slots) = keys slots := by
  simp only [keys, fill, List.map_map]
  apply List.map_congr_left
  intro slot _
  simp only [Function.comp_apply]
  split <;> rfl

@[simp] theorem precedes_fill
    {first second key : Key}
    {replacement : List α}
    {slots : List (Slot Key α)} :
    Precedes first second (fill key replacement slots) ↔
      Precedes first second slots := by
  simp [Precedes]

theorem fill_absent
    {key : Key}
    {slots : List (Slot Key α)}
    (absent : key ∉ keys slots)
    (replacement : List α) :
    fill key replacement slots = slots := by
  unfold fill
  conv_rhs => rw [← List.map_id slots]
  apply List.map_congr_left
  intro slot member
  have different : slot.key ≠ key := by
    intro same
    exact absent (same ▸ List.mem_map_of_mem member)
  simp [different]

/-- Writers that own different slots may be served in either order. -/
theorem fill_comm
    {first second : Key}
    (different : first ≠ second)
    (firstText secondText : List α)
    (slots : List (Slot Key α)) :
    fill second secondText (fill first firstText slots) =
      fill first firstText (fill second secondText slots) := by
  simp only [fill, List.map_map]
  apply List.map_congr_left
  intro slot _
  simp only [Function.comp_apply]
  by_cases isFirst : slot.key = first
  · have notSecond : slot.key ≠ second := isFirst ▸ different
    simp [isFirst, different]
  · by_cases isSecond : slot.key = second
    · simp [isSecond, different.symm]
    · simp [isFirst, isSecond]

theorem bodyOf_fill_other
    {key other : Key}
    (different : other ≠ key)
    (replacement : List α)
    (slots : List (Slot Key α)) :
    bodyOf other (fill key replacement slots) = bodyOf other slots := by
  induction slots with
  | nil =>
      rfl
  | cons slot rest inductionHypothesis =>
      by_cases here : slot.key = key
      · simpa [fill, bodyOf, here, different.symm] using inductionHypothesis
      · by_cases isOther : slot.key = other
        · simp [fill, bodyOf, isOther, different]
        · simpa [fill, bodyOf, here, isOther] using inductionHypothesis

/-- The body of a slot is what the flat text holds at its offset. -/
theorem slice_render
    {key : Key}
    {slots : List (Slot Key α)}
    (present : key ∈ keys slots)
    (tail : List α) :
    slice (render slots tail)
        (offset key slots)
        (offset key slots + (bodyOf key slots).length) =
      bodyOf key slots := by
  induction slots with
  | nil =>
      simp [keys] at present
  | cons slot rest inductionHypothesis =>
      by_cases here : slot.key = key
      · simp [slice, render, offset, bodyOf, here, List.append_assoc]
      · have inRest : key ∈ keys rest := by
          simpa [keys, Ne.symm here] using present
        have recursive := inductionHypothesis inRest
        simp only [slice, render, Nat.add_sub_cancel_left] at recursive ⊢
        simp only [offset, bodyOf, here, ↓reduceIte, List.flatMap_cons,
          List.append_assoc]
        rw [Nat.add_assoc, ← List.drop_drop, List.drop_left,
          ← List.drop_drop, List.drop_left]
        exact recursive

/-- A slot lies within the flat text. -/
theorem offset_add_length_le
    {key : Key}
    {slots : List (Slot Key α)}
    (present : key ∈ keys slots)
    (tail : List α) :
    offset key slots + (bodyOf key slots).length ≤
      (render slots tail).length := by
  induction slots with
  | nil =>
      simp [keys] at present
  | cons slot rest inductionHypothesis =>
      by_cases here : slot.key = key
      · simp only [offset, bodyOf, here, ↓reduceIte, render,
          List.flatMap_cons, List.length_append]
        omega
      · have inRest : key ∈ keys rest := by
          simpa [keys, Ne.symm here] using present
        have recursive := inductionHypothesis inRest
        simp only [render, List.length_append] at recursive
        simp only [offset, bodyOf, here, ↓reduceIte, render,
          List.flatMap_cons, List.length_append]
        omega

/-- Filling a slot is a splice of the flat text at the slot's offset. -/
theorem render_fill
    {key : Key}
    {slots : List (Slot Key α)}
    (present : key ∈ keys slots)
    (noDuplicates : (keys slots).Nodup)
    (replacement tail : List α) :
    render (fill key replacement slots) tail =
      splice (render slots tail)
        (offset key slots)
        (offset key slots + (bodyOf key slots).length)
        replacement := by
  induction slots with
  | nil =>
      simp [keys] at present
  | cons slot rest inductionHypothesis =>
      have shape : (slot.key :: keys rest).Nodup := noDuplicates
      rw [List.nodup_cons] at shape
      obtain ⟨fresh, restNodup⟩ := shape
      by_cases here : slot.key = key
      · have absent : key ∉ keys rest := here ▸ fresh
        have restSame := fill_absent absent replacement
        simp only [fill] at restSame
        simp only [render, fill, List.map_cons, here, ↓reduceIte,
          List.flatMap_cons, splice, offset, bodyOf, List.append_assoc,
          restSame]
        rw [List.take_left, ← List.drop_drop, List.drop_left, List.drop_left]
      · have inRest : key ∈ keys rest := by
          simpa [keys, Ne.symm here] using present
        have recursive := inductionHypothesis inRest restNodup
        simp only [render, fill, splice] at recursive
        simp only [render, fill, List.map_cons, here, ↓reduceIte,
          List.flatMap_cons, splice, offset, bodyOf, List.append_assoc]
        have takeFront :
            ∀ (a b c : List α) (n : Nat),
              (a ++ (b ++ c)).take (a.length + b.length + n) =
                a ++ (b ++ c.take n) := by
          intro a b c n
          rw [Nat.add_assoc, List.take_length_add_append,
            List.take_length_add_append]
        have dropFront :
            ∀ (a b c : List α) (n : Nat),
              (a ++ (b ++ c)).drop (a.length + b.length + n) = c.drop n := by
          intro a b c n
          rw [Nat.add_assoc, List.drop_length_add_append,
            List.drop_length_add_append]
        rw [recursive, takeFront,
          Nat.add_assoc (slot.gap.length + slot.body.length), dropFront]
        simp [List.append_assoc]

/-- Two different keys stand in one order or the other. -/
theorem precedes_total
    {first second : Key}
    {slots : List (Slot Key α)}
    (firstPresent : first ∈ keys slots)
    (secondPresent : second ∈ keys slots)
    (different : first ≠ second) :
    Precedes first second slots ∨ Precedes second first slots := by
  unfold Precedes
  generalize keys slots = order at firstPresent secondPresent
  induction order with
  | nil =>
      simp at firstPresent
  | cons key rest inductionHypothesis =>
      by_cases firstHere : first = key
      · subst firstHere
        have secondLater : second ∈ rest := by
          simpa [different.symm] using secondPresent
        exact Or.inl
          ((List.singleton_sublist.mpr secondLater).cons_cons first)
      · have firstLater : first ∈ rest := by
          simpa [firstHere] using firstPresent
        by_cases secondHere : second = key
        · subst secondHere
          exact Or.inr
            ((List.singleton_sublist.mpr firstLater).cons_cons second)
        · have secondLater : second ∈ rest := by
            simpa [secondHere] using secondPresent
          exact (inductionHypothesis firstLater secondLater).imp
            (fun before => before.cons key) (fun before => before.cons key)

/-- Filling a slot does not move the slots before it. -/
theorem offset_fill_of_precedes
    {first second : Key}
    {slots : List (Slot Key α)}
    (noDuplicates : (keys slots).Nodup)
    (before : Precedes first second slots)
    (replacement : List α) :
    offset first slots + (bodyOf first slots).length ≤
        offset second slots ∧
      offset first (fill second replacement slots) =
        offset first slots := by
  induction slots with
  | nil =>
      simp [Precedes, keys] at before
  | cons slot rest inductionHypothesis =>
      have shape : (slot.key :: keys rest).Nodup := noDuplicates
      rw [List.nodup_cons] at shape
      obtain ⟨fresh, restNodup⟩ := shape
      have ordered : [first, second].Sublist (slot.key :: keys rest) := before
      cases ordered with
      | cons _ inRest =>
          have firstNotHere : slot.key ≠ first := by
            intro same
            exact fresh (same ▸ inRest.subset (by simp))
          have secondNotHere : slot.key ≠ second := by
            intro same
            exact fresh (same ▸ inRest.subset (by simp))
          obtain ⟨bound, unmoved⟩ := inductionHypothesis restNodup inRest
          simp only [fill] at unmoved
          simp only [offset, bodyOf, fill, List.map_cons, firstNotHere,
            secondNotHere, ↓reduceIte, unmoved, and_true]
          omega
      | cons_cons _ inRest =>
          have secondPresent : second ∈ keys rest := inRest.subset (by simp)
          have secondNotHere : slot.key ≠ second := by
            intro same
            exact fresh (same ▸ secondPresent)
          simp [offset, bodyOf, fill, secondNotHere]

/-- Filling a slot moves the slots after it by the change of its length. -/
theorem offset_fill_of_preceded
    {first second : Key}
    {slots : List (Slot Key α)}
    (noDuplicates : (keys slots).Nodup)
    (before : Precedes first second slots)
    (replacement : List α) :
    offset second (fill first replacement slots) +
        (bodyOf first slots).length =
      offset second slots + replacement.length := by
  induction slots with
  | nil =>
      simp [Precedes, keys] at before
  | cons slot rest inductionHypothesis =>
      have shape : (slot.key :: keys rest).Nodup := noDuplicates
      rw [List.nodup_cons] at shape
      obtain ⟨fresh, restNodup⟩ := shape
      have ordered : [first, second].Sublist (slot.key :: keys rest) := before
      cases ordered with
      | cons _ inRest =>
          have firstNotHere : slot.key ≠ first := by
            intro same
            exact fresh (same ▸ inRest.subset (by simp))
          have secondNotHere : slot.key ≠ second := by
            intro same
            exact fresh (same ▸ inRest.subset (by simp))
          have recursive := inductionHypothesis restNodup inRest
          simp only [fill] at recursive
          simp only [offset, bodyOf, fill, List.map_cons, firstNotHere,
            secondNotHere, ↓reduceIte]
          omega
      | cons_cons _ inRest =>
          have secondPresent : second ∈ keys rest := inRest.subset (by simp)
          have secondNotHere : slot.key ≠ second := by
            intro same
            exact fresh (same ▸ secondPresent)
          have restSame := fill_absent fresh replacement
          simp only [fill] at restSame
          simp only [offset, bodyOf, fill, List.map_cons, secondNotHere,
            ↓reduceIte, restSame]
          omega

end Filling

/-! ## Carving a flat text along disjoint ranges -/

/--
Cut a text that starts at `position` along ranges given in textual order; the
second component is what is left after the last range.
-/
def carve (position : Nat) (text : List α) :
    List (Key × Nat × Nat) → List (Slot Key α) × List α
  | [] =>
      ([], text)
  | (key, start, stop) :: rest =>
      let (later, tail) :=
        carve stop (text.drop (stop - position)) rest
      ({ gap := text.take (start - position)
         key := key
         body := slice text (start - position) (stop - position) } :: later,
        tail)

/-- The ranges stand in textual order and do not overlap. -/
def Ascending : Nat → List (Key × Nat × Nat) → Nat → Prop
  | position, [], length =>
      position ≤ length
  | position, (_, start, stop) :: rest, length =>
      position ≤ start ∧ start ≤ stop ∧ Ascending stop rest length

theorem Ascending.le_length
    {position length : Nat}
    {ranges : List (Key × Nat × Nat)}
    (ascending : Ascending position ranges length) :
    position ≤ length := by
  induction ranges generalizing position with
  | nil =>
      exact ascending
  | cons range rest inductionHypothesis =>
      obtain ⟨low, ordered, later⟩ := ascending
      have bound := inductionHypothesis later
      omega

theorem keys_carve
    (position : Nat)
    (text : List α)
    (ranges : List (Key × Nat × Nat)) :
    keys (carve position text ranges).1 = ranges.map Prod.fst := by
  induction ranges generalizing position text with
  | nil =>
      rfl
  | cons range rest inductionHypothesis =>
      have recursive :=
        inductionHypothesis range.2.2 (text.drop (range.2.2 - position))
      simp only [keys] at recursive
      simp [keys, carve, recursive]

/-- Carving loses nothing. -/
theorem render_carve
    {position : Nat}
    {text : List α}
    {ranges : List (Key × Nat × Nat)}
    (ascending : Ascending position ranges (position + text.length)) :
    render (carve position text ranges).1 (carve position text ranges).2 =
      text := by
  induction ranges generalizing position text with
  | nil =>
      rfl
  | cons range rest inductionHypothesis =>
      obtain ⟨key, start, stop⟩ := range
      obtain ⟨low, ordered, later⟩ := ascending
      have bound := later.le_length
      have restLength :
          stop + (text.drop (stop - position)).length =
            position + text.length := by
        rw [List.length_drop]
        omega
      have laterRanges := restLength.symm ▸ later
      have recursive := inductionHypothesis laterRanges
      simp only [render] at recursive
      have pieces :
          text.take (start - position) ++
              (slice text (start - position) (stop - position) ++
                text.drop (stop - position)) =
            text := by
        have middle :
            slice text (start - position) (stop - position) ++
                text.drop (stop - position) =
              text.drop (start - position) := by
          have cut :=
            List.take_append_drop (stop - start)
              (text.drop (start - position))
          rw [List.drop_drop] at cut
          have sum : start - position + (stop - start) = stop - position := by
            omega
          have width :
              stop - position - (start - position) = stop - start := by
            omega
          rw [sum] at cut
          rw [slice, width]
          exact cut
        rw [middle, List.take_append_drop]
      simp only [render, carve, List.flatMap_cons, List.append_assoc,
        recursive]
      exact pieces

/-- Each carved slot lies where its range said. -/
theorem offset_carve
    [DecidableEq Key]
    {position : Nat}
    {text : List α}
    {ranges : List (Key × Nat × Nat)}
    (ascending : Ascending position ranges (position + text.length))
    (noDuplicates : (ranges.map Prod.fst).Nodup)
    {key : Key}
    {start stop : Nat}
    (member : (key, start, stop) ∈ ranges) :
    position + offset key (carve position text ranges).1 = start ∧
      (bodyOf key (carve position text ranges).1).length = stop - start ∧
      start ≤ stop := by
  induction ranges generalizing position text with
  | nil =>
      simp at member
  | cons range rest inductionHypothesis =>
      obtain ⟨headKey, headStart, headStop⟩ := range
      obtain ⟨low, ordered, later⟩ := ascending
      rw [List.map_cons, List.nodup_cons] at noDuplicates
      obtain ⟨fresh, restNodup⟩ := noDuplicates
      have bound := later.le_length
      have gapLength :
          (text.take (headStart - position)).length =
            headStart - position := by
        rw [List.length_take]
        omega
      have bodyLength :
          (slice text (headStart - position)
            (headStop - position)).length = headStop - headStart := by
        rw [slice, List.length_take, List.length_drop]
        omega
      rcases List.mem_cons.mp member with here | inRest
      · obtain ⟨rfl, rfl, rfl⟩ : key = headKey ∧ start = headStart ∧
            stop = headStop := by
          simpa using here
        simp only [carve, offset, bodyOf, ↓reduceIte, gapLength, bodyLength,
          ordered, and_true]
        omega
      · have notHere : headKey ≠ key := by
          intro same
          have keyInRest : key ∈ rest.map Prod.fst :=
            List.mem_map_of_mem (f := Prod.fst) inRest
          exact fresh (same ▸ keyInRest)
        have restLength :
            headStop + (text.drop (headStop - position)).length =
              position + text.length := by
          rw [List.length_drop]
          omega
        have laterRanges := restLength.symm ▸ later
        obtain ⟨placed, sized, nonnegative⟩ :=
          inductionHypothesis laterRanges restNodup inRest
        simp only [carve, offset, bodyOf, notHere, ↓reduceIte, gapLength,
          bodyLength, sized, nonnegative, and_true]
        omega

/-! ## Replacing every range at once -/

/--
Copy the text up to each range, put its replacement there and go on behind it;
the ranges stand in textual order and the text starts at `position`.
-/
def replaceRanges (position : Nat) (text : List α) :
    List (Nat × Nat × List α) → List α
  | [] =>
      text
  | (start, stop, replacement) :: rest =>
      text.take (start - position) ++ replacement ++
        replaceRanges stop (text.drop (stop - position)) rest

/-- Fill the slots of all keys that are `done`. -/
def fillWhere
    (done : Key → Bool)
    (replacement : Key → List α)
    (slots : List (Slot Key α)) : List (Slot Key α) :=
  slots.map fun slot =>
    if done slot.key then { slot with body := replacement slot.key } else slot

@[simp] theorem keys_fillWhere
    (done : Key → Bool)
    (replacement : Key → List α)
    (slots : List (Slot Key α)) :
    keys (fillWhere done replacement slots) = keys slots := by
  simp only [keys, fillWhere, List.map_map]
  apply List.map_congr_left
  intro slot _
  simp only [Function.comp_apply]
  split <;> rfl

/-- When every writer has finished, every range has been replaced. -/
theorem render_fillWhere_carve
    (replacement : Key → List α)
    {done : Key → Bool}
    {ranges : List (Key × Nat × Nat)}
    (allDone : ∀ range ∈ ranges, done range.1 = true)
    (position : Nat)
    (text : List α) :
    render (fillWhere done replacement (carve position text ranges).1)
        (carve position text ranges).2 =
      replaceRanges position text
        (ranges.map fun range =>
          (range.2.1, range.2.2, replacement range.1)) := by
  induction ranges generalizing position text with
  | nil =>
      rfl
  | cons range rest inductionHypothesis =>
      obtain ⟨key, start, stop⟩ := range
      have headDone : done key = true := allDone (key, start, stop) (by simp)
      have recursive :=
        inductionHypothesis (fun other member => allDone other (by simp [member]))
          stop (text.drop (stop - position))
      simp only [render, fillWhere] at recursive
      simp only [render, fillWhere, carve, List.map_cons, headDone,
        ↓reduceIte, List.flatMap_cons, List.append_assoc, recursive,
        replaceRanges]

end Slot

end DistributedDocs
