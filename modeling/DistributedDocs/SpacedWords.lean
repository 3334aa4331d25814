import Mathlib.Data.List.TakeWhile
import DistributedDocs.DelimitedText

namespace DistributedDocs

/-!
# Words between spaces

The words of a list are its longest pieces without a space.  Splitting loses
the spaces only, and joining words by one space each is undone by it.
-/

section SpacedWords

variable {α : Type} {isSpace : α → Bool}

/-- The words of a text. -/
def spacedWords (isSpace : α → Bool) (text : List α) : List (List α) :=
  (text.splitOnP isSpace).filter fun word => !word.isEmpty

/-- A word: something, and no space in it. -/
structure IsWord (isSpace : α → Bool) (word : List α) : Prop where
  nonempty : word ≠ []
  solid : ∀ c ∈ word, isSpace c = false

@[simp] theorem spacedWords_nil : spacedWords isSpace [] = [] := by
  simp [spacedWords]

/-- Words split at every space. -/
theorem spacedWords_append_cons
    (front : List α)
    {space : α}
    (spaced : isSpace space = true)
    (rest : List α) :
    spacedWords isSpace (front ++ space :: rest) =
      spacedWords isSpace front ++ spacedWords isSpace rest := by
  simp only [spacedWords, List.splitOnP_append_cons front rest spaced,
    List.filter_append]

theorem spacedWords_cons_space
    {space : α}
    (spaced : isSpace space = true)
    (rest : List α) :
    spacedWords isSpace (space :: rest) = spacedWords isSpace rest := by
  have split := spacedWords_append_cons [] spaced rest
  simpa using split

theorem spacedWords_word
    {word : List α}
    (isWord : IsWord isSpace word) :
    spacedWords isSpace word = [word] := by
  have whole : word.splitOnP isSpace = [word] :=
    List.splitOnP_eq_singleton isWord.solid
  simp [spacedWords, whole, isWord.nonempty]

theorem isWord_of_mem
    {text word : List α}
    (listed : word ∈ spacedWords isSpace text) :
    IsWord isSpace word := by
  obtain ⟨piece, nonempty⟩ := List.mem_filter.mp listed
  exact
    { nonempty := by
        rintro rfl
        simp at nonempty
      solid := fun c member => (of_mem_splitOnP piece member).2 }

@[simp] theorem spacedWords_dropWhile (text : List α) :
    spacedWords isSpace (text.dropWhile isSpace) =
      spacedWords isSpace text := by
  induction text with
  | nil =>
      rfl
  | cons c rest inductionHypothesis =>
      by_cases spaced : isSpace c = true
      · rw [List.dropWhile_cons_of_pos spaced, inductionHypothesis,
          spacedWords_cons_space spaced]
      · rw [List.dropWhile_cons_of_neg spaced]

/-- The first word of a text that starts with one. -/
theorem spacedWords_cons_solid
    {c : α}
    (solid : isSpace c = false)
    (rest : List α) :
    spacedWords isSpace (c :: rest) =
      (c :: rest).takeWhile (fun d => !isSpace d) ::
        spacedWords isSpace
          ((c :: rest).dropWhile fun d => !isSpace d) := by
  have isWord :
      IsWord isSpace ((c :: rest).takeWhile fun d => !isSpace d) :=
    { nonempty := by simp [solid]
      solid := fun d member => by
        simpa using List.mem_takeWhile_imp member }
  have parts :=
    List.takeWhile_append_dropWhile
      (p := fun d => !isSpace d) (l := c :: rest)
  cases remaining : (c :: rest).dropWhile fun d => !isSpace d with
  | nil =>
      rw [remaining, List.append_nil] at parts
      rw [spacedWords_nil, ← spacedWords_word isWord, parts]
  | cons space others =>
      have spaced : isSpace space = true := by
        have stopped :=
          List.head?_dropWhile_not (fun d => !isSpace d) (c :: rest)
        rw [remaining] at stopped
        simpa using stopped
      rw [remaining] at parts
      rw [spacedWords_cons_space spaced]
      conv_lhs => rw [← parts]
      rw [spacedWords_append_cons _ spaced, spacedWords_word isWord]
      rfl

/-- Words hold every character but the spaces. -/
theorem flatten_spacedWords (text : List α) :
    (spacedWords isSpace text).flatten = text.filter fun c => !isSpace c := by
  induction text with
  | nil =>
      simp
  | cons c rest inductionHypothesis =>
      by_cases spaced : isSpace c = true
      · simp [spacedWords_cons_space spaced, inductionHypothesis, spaced]
      · simp only [Bool.not_eq_true] at spaced
        have pieces :
            (spacedWords isSpace (c :: rest)).flatten =
              c :: (rest.splitOnP isSpace).flatten := by
          rw [spacedWords, List.flatten_filter_not_isEmpty,
            List.splitOnP_cons_eq_if_modifyHead, if_neg (by simp [spaced])]
          cases split : rest.splitOnP isSpace with
          | nil =>
              exact absurd split (List.splitOnP_ne_nil _ _)
          | cons word words =>
              simp
        rw [pieces, ← List.flatten_filter_not_isEmpty,
          ← spacedWords, inductionHypothesis]
        simp [spaced]

/-- Words that are joined by single spaces are read back. -/
theorem spacedWords_intercalate
    {space : α}
    (spaced : isSpace space = true)
    {words : List (List α)}
    (areWords : ∀ word ∈ words, IsWord isSpace word) :
    spacedWords isSpace (List.intercalate [space] words) = words := by
  induction words with
  | nil =>
      simp [List.intercalate]
  | cons word rest inductionHypothesis =>
      have isWord := areWords word List.mem_cons_self
      have restWords : ∀ other ∈ rest, IsWord isSpace other :=
        fun other listed => areWords other (List.mem_cons_of_mem word listed)
      cases rest with
      | nil =>
          simpa [List.intercalate] using spacedWords_word isWord
      | cons next others =>
          rw [List.intercalate_cons_cons, List.append_assoc,
            List.singleton_append, spacedWords_append_cons _ spaced,
            spacedWords_word isWord, inductionHypothesis restWords]
          rfl

end SpacedWords

end DistributedDocs
