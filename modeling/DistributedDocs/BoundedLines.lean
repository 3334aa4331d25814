import Mathlib.Data.List.Basic
import Mathlib.Data.List.Infix

namespace DistributedDocs

/-!
# Reading lines through a bounded buffer

A reader takes a text in pieces: up to and with the next line end, but never
more than its buffer holds.  A line that fits comes whole; a longer one comes
in several pieces, of which only the first begins where the line does.
-/

section BoundedLines

variable
  {α : Type}
  (endsLine : α → Bool)
  (limit : Nat)

/-- The pieces of a text, the first of which has already begun. -/
def piecesFrom (begun : List α) : List α → List (List α)
  | [] =>
      if begun.isEmpty then [] else [begun]
  | c :: rest =>
      if endsLine c || limit ≤ begun.length + 1 then
        (begun ++ [c]) :: piecesFrom [] rest
      else
        piecesFrom (begun ++ [c]) rest

/-- The pieces of a text. -/
def boundedLines (text : List α) : List (List α) :=
  piecesFrom endsLine limit [] text

@[simp] theorem boundedLines_nil : boundedLines endsLine limit [] = [] :=
  rfl

variable {endsLine limit}

/--
The first piece of a line is what the buffer holds of it; the pieces after it
are the rest of the line, and the next line begins a piece.
-/
theorem piecesFrom_line
    {begun line rest : List α}
    {terminator : α}
    (roomLeft : begun.length < limit)
    (oneLine : ∀ c ∈ line, endsLine c = false)
    (ends : endsLine terminator = true) :
    ∃ later,
      piecesFrom endsLine limit begun (line ++ terminator :: rest) =
          (begun ++ line ++ [terminator]).take limit ::
            (later ++ boundedLines endsLine limit rest) ∧
        later.flatten = (begun ++ line ++ [terminator]).drop limit ∧
        (begun.length + line.length < limit → later = []) := by
  induction line generalizing begun with
  | nil =>
      have whole : (begun ++ [terminator]).length ≤ limit := by
        simpa using Nat.succ_le_of_lt roomLeft
      refine ⟨[], ?_, ?_, fun _ => rfl⟩
      · simp only [List.nil_append, piecesFrom, ends, Bool.true_or, ↓reduceIte,
          List.append_nil, List.take_of_length_le whole]
        rfl
      · rw [List.append_nil, List.drop_of_length_le whole, List.flatten_nil]
  | cons c line inductionHypothesis =>
      have lineRest : ∀ d ∈ line, endsLine d = false := fun d member =>
        oneLine d (List.mem_cons_of_mem c member)
      have goesOn : endsLine c = false := oneLine c List.mem_cons_self
      rcases Nat.lt_or_ge (begun.length + 1) limit with room | full
      · obtain ⟨later, pieces, restOfLine, whole⟩ :=
          @inductionHypothesis (begun ++ [c]) (by simpa using room) lineRest
        refine ⟨later, ?_, ?_, fun fits => ?_⟩
        · simp only [List.cons_append, piecesFrom, goesOn, Bool.false_or,
            decide_eq_true_eq, if_neg (Nat.not_le.mpr room), pieces,
            List.append_assoc, List.nil_append]
        · simpa using restOfLine
        · apply whole
          simp only [List.length_append, List.length_cons, List.length_nil]
            at fits ⊢
          omega
      · -- the buffer is full: what is left of the line begins a new piece
        obtain ⟨later, pieces, restOfLine, _⟩ :=
          @inductionHypothesis [] (Nat.lt_of_le_of_lt (Nat.zero_le _) roomLeft)
            lineRest
        have filled : limit = (begun ++ [c]).length := by
          simp only [List.length_append, List.length_cons, List.length_nil]
          omega
        have regrouped :
            begun ++ c :: line ++ [terminator] =
              (begun ++ [c]) ++ (line ++ [terminator]) := by
          simp
        refine
          ⟨(line ++ [terminator]).take limit :: later, ?_, ?_, fun fits => ?_⟩
        · have first :
              (begun ++ c :: line ++ [terminator]).take limit =
                begun ++ [c] := by
            rw [regrouped, filled, List.take_left]
          simp only [List.cons_append, piecesFrom, goesOn, Bool.false_or,
            decide_eq_true_eq, if_pos full, pieces, List.nil_append]
          rw [← List.cons_append, first]
        · have behind :
              (begun ++ c :: line ++ [terminator]).drop limit =
                line ++ [terminator] := by
            rw [regrouped, filled, List.drop_left]
          rw [List.flatten_cons, restOfLine, behind, List.nil_append,
            List.take_append_drop]
        · rw [List.length_cons] at fits
          omega

/-- A line that fits comes whole. -/
theorem boundedLines_of_fits
    {line rest : List α}
    {terminator : α}
    (fits : line.length < limit)
    (oneLine : ∀ c ∈ line, endsLine c = false)
    (ends : endsLine terminator = true) :
    boundedLines endsLine limit (line ++ terminator :: rest) =
      (line ++ [terminator]) :: boundedLines endsLine limit rest := by
  have positive : ([] : List α).length < limit :=
    Nat.lt_of_le_of_lt (Nat.zero_le _) fits
  obtain ⟨later, pieces, _, whole⟩ :=
    @piecesFrom_line α endsLine limit [] line rest terminator positive oneLine
      ends
  have noneLater := whole (by simpa using fits)
  have taken : (line ++ [terminator]).take limit = line ++ [terminator] :=
    List.take_of_length_le (by simpa using Nat.succ_le_of_lt fits)
  rw [boundedLines, pieces, noneLater, List.nil_append, List.nil_append, taken]

/-- Reading a line that may be longer than the buffer. -/
theorem boundedLines_line
    {line rest : List α}
    {terminator : α}
    (positive : 0 < limit)
    (oneLine : ∀ c ∈ line, endsLine c = false)
    (ends : endsLine terminator = true) :
    ∃ later,
      boundedLines endsLine limit (line ++ terminator :: rest) =
          (line ++ [terminator]).take limit ::
            (later ++ boundedLines endsLine limit rest) ∧
        later.flatten = (line ++ [terminator]).drop limit := by
  obtain ⟨later, pieces, restOfLine, _⟩ :=
    @piecesFrom_line α endsLine limit [] line rest terminator positive oneLine
      ends
  exact ⟨later, pieces, restOfLine⟩

/-- Lines that all fit come one by one. -/
theorem boundedLines_lines
    {lines : List (List α)}
    {terminator : α}
    (fits : ∀ line ∈ lines, line.length < limit)
    (oneLine : ∀ line ∈ lines, ∀ c ∈ line, endsLine c = false)
    (ends : endsLine terminator = true) :
    boundedLines endsLine limit
        (lines.flatMap fun line => line ++ [terminator]) =
      lines.map fun line => line ++ [terminator] := by
  induction lines with
  | nil =>
      rfl
  | cons line rest inductionHypothesis =>
      rw [List.forall_mem_cons] at fits oneLine
      rw [List.flatMap_cons, List.map_cons, List.append_assoc,
        List.singleton_append,
        boundedLines_of_fits fits.1 oneLine.1 ends,
        inductionHypothesis fits.2 oneLine.2]

/-- Pieces are cut in the same places whatever the characters stand for. -/
theorem piecesFrom_map
    {β : Type}
    (value : β → α)
    (begun text : List β) :
    piecesFrom endsLine limit (begun.map value) (text.map value) =
      (piecesFrom (fun c => endsLine (value c)) limit begun text).map
        (List.map value) := by
  induction text generalizing begun with
  | nil =>
      cases begun with
      | nil =>
          rfl
      | cons c begun =>
          rfl
  | cons c rest inductionHypothesis =>
      have more := inductionHypothesis (begun ++ [c])
      have fresh := inductionHypothesis []
      rw [List.map_append, List.map_singleton] at more
      rw [List.map_nil] at fresh
      simp only [List.map_cons, piecesFrom, List.length_map]
      split
      · rw [fresh, List.map_cons, List.map_append, List.map_singleton]
      · exact more

theorem boundedLines_map
    {β : Type}
    (value : β → α)
    (text : List β) :
    boundedLines endsLine limit (text.map value) =
      (boundedLines (fun c => endsLine (value c)) limit text).map
        (List.map value) :=
  piecesFrom_map value [] text

end BoundedLines

end DistributedDocs
