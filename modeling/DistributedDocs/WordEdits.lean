import DistributedDocs.SpacedWords
import DistributedDocs.WriteSession

namespace DistributedDocs

/-!
# Word edits

An edit takes the final delimiter off the sentence, inserts the words of its
content and puts the delimiter back unless the last word already ends in one.
That word may be an old one: then the edit loses a character of the sentence.
-/

/-- A text without its white space. -/
def nonSpace (text : CString) : CString :=
  text.filter fun c => !isspace c

/-- A text without the white space at its end. -/
def withoutTrailingSpace (text : CString) : CString :=
  (text.reverse.dropWhile isspace).reverse

/-- The delimiter a text ends with, white space behind it aside. -/
def finalDelimiter (text : CString) : Option CChar :=
  (withoutTrailingSpace text).getLast?.filter isSentenceDelimiter

/-- The words of a text, its final delimiter taken off. -/
def wordsBeforeDelimiter (text : CString) : List CString :=
  spacedWords isspace
    (if (finalDelimiter text).isSome then
      (withoutTrailingSpace text).dropLast
    else
      withoutTrailingSpace text)

/-- Whether the last word ends in a delimiter. -/
def closesSentence (words : List CString) : Bool :=
  match words.getLast? with
  | some lastWord => endsWithDelimiter lastWord
  | none => false

/-- `ss_apply_word_edit` on its session, with the number it returns. -/
def WriteSession.applyWordEdit
    (wordIndex : Int)
    (content : CString)
    (session : WriteSession) : WriteSession × Int :=
  match ssApplyWordEdit session.sentenceWorking wordIndex content with
  | some joined => ({ session with sentenceWorking := joined }, 0)
  | none => (session, -1)

/-- The texts a session works on: a sentence, after any edits. -/
inductive WorkingText : CString → Prop where
  | cut
      {fileData : CString}
      {sentenceIndex : Int}
      {start stop : Nat}
      (found :
        ssGetSentenceBounds fileData sentenceIndex = some (start, stop)) :
      WorkingText (slice fileData start stop)
  | edited
      {sentenceWorking joined content : CString}
      {wordIndex : Int}
      (reached : WorkingText sentenceWorking)
      (applied :
        ssApplyWordEdit sentenceWorking wordIndex content = some joined) :
      WorkingText joined

/-- An edit inserts its content, at one place and with nothing lost. -/
def OnlyInserts
    (session : WriteSession)
    (wordIndex : Int)
    (content : CString) : Prop :=
  let words := wordsBeforeDelimiter session.sentenceWorking
  if wordIndex < 0 ∨ wordIndex > words.length + 1 then
    session.applyWordEdit wordIndex content = (session, -1)
  else
    ∃ joined kept,
      session.applyWordEdit wordIndex content =
          ({ session with sentenceWorking := joined }, 0) ∧
        nonSpace joined =
          (words.take wordIndex.toNat).flatten ++ nonSpace content ++
            (words.drop wordIndex.toNat).flatten ++ kept ∧
        (kept = (finalDelimiter session.sentenceWorking).toList ∨
          kept = [] ∧ wordIndex ≥ words.length ∧
            (finalDelimiter content).isSome) ∧
        List.intercalate (str " ") (spacedWords isspace joined) = joined

/--
The edit takes off a delimiter and finds another one behind it: in front of
the last old word, or with no word to insert.
-/
def DropsDelimiter
    (text : CString)
    (wordIndex : Int)
    (content : CString) : Prop :=
  let words := wordsBeforeDelimiter text
  0 ≤ wordIndex ∧ wordIndex ≤ words.length + 1 ∧
    (finalDelimiter text).isSome ∧ closesSentence words ∧
    (wordIndex < words.length ∨ nonSpace content = [])

/-! ## The words of a text -/

/-- White space is skipped up to a character that is none. -/
theorem isspace_of_unspaced
    {text rest : CString}
    {c : CChar}
    (unspaced : text.dropWhile isspace = c :: rest) :
    isspace c = false := by
  have stopped := List.head?_dropWhile_not isspace text
  rw [unspaced] at stopped
  simpa using stopped

theorem splitWords_eq (text : CString) :
    splitWords text = spacedWords isspace text := by
  fun_induction splitWords text with
  | case1 text blank =>
      rw [← spacedWords_dropWhile, blank, spacedWords_nil]
  | case2 text c rest unspaced inductionHypothesis =>
      rw [← spacedWords_dropWhile text, unspaced,
        spacedWords_cons_solid (isspace_of_unspaced unspaced),
        inductionHypothesis]

theorem flatten_splitWords (text : CString) :
    (splitWords text).flatten = nonSpace text := by
  rw [splitWords_eq, flatten_spacedWords, nonSpace]

theorem splitWords_eq_nil_iff {text : CString} :
    splitWords text = [] ↔ nonSpace text = [] := by
  rw [← flatten_splitWords]
  constructor
  · intro blank
    rw [blank, List.flatten_nil]
  · intro blank
    rw [List.eq_nil_iff_forall_not_mem]
    intro word listed
    rw [splitWords_eq] at listed
    exact (isWord_of_mem listed).nonempty
      (List.flatten_eq_nil_iff.mp blank word (by rwa [splitWords_eq]))

/-- The last character that is no space, read in either way. -/
theorem getLast?_nonSpace (text : CString) :
    (nonSpace text).getLast? = (withoutTrailingSpace text).getLast? := by
  rw [nonSpace, withoutTrailingSpace, List.getLast?_reverse,
    List.getLast?_eq_head?_reverse, ← List.filter_reverse, List.head?_filter,
    List.find?_eq_head?_dropWhile_not]
  simp only [Bool.not_not]

theorem closesSentence_eq
    {words : List CString}
    (areWords : ∀ word ∈ words, IsWord isspace word) :
    closesSentence words =
      (words.flatten.getLast?.filter isSentenceDelimiter).isSome := by
  rcases List.eq_nil_or_concat words with rfl | ⟨front, last, rfl⟩
  · rfl
  · have isWord := areWords last (by simp)
    obtain ⟨initial, c, rfl⟩ :=
      (List.eq_nil_or_concat last).resolve_left isWord.nonempty
    cases found : isSentenceDelimiter c <;>
      simp [closesSentence, endsWithDelimiter, Option.filter_some, found]

theorem closesSentence_splitWords (text : CString) :
    closesSentence (splitWords text) = (finalDelimiter text).isSome := by
  have areWords : ∀ word ∈ splitWords text, IsWord isspace word := by
    intro word listed
    rw [splitWords_eq] at listed
    exact isWord_of_mem listed
  rw [closesSentence_eq areWords, flatten_splitWords, getLast?_nonSpace,
    finalDelimiter]

/-! ## Joining words -/

theorem str_space : str " " = [CChar.ofChar ' '] :=
  rfl

theorem isspace_space : isspace (CChar.ofChar ' ') = true := by
  decide

theorem joinWords_some (words : List CString) (delimiter : CChar) :
    joinWords words (some delimiter) =
      if closesSentence words then
        List.intercalate (str " ") words
      else
        List.intercalate (str " ") words ++ [delimiter] :=
  rfl

section JoinWords

variable
  {words : List CString}
  (areWords : ∀ word ∈ words, IsWord isspace word)

include areWords

theorem nonSpace_intercalate :
    nonSpace (List.intercalate (str " ") words) = words.flatten := by
  rw [nonSpace, ← flatten_spacedWords, str_space,
    spacedWords_intercalate isspace_space areWords]

variable
  {delimiterChar : Option CChar}
  (delims : ∀ c ∈ delimiterChar, isSentenceDelimiter c = true)

include delims

/-- What `join_words` keeps of the delimiter. -/
theorem nonSpace_joinWords :
    nonSpace (joinWords words delimiterChar) =
      words.flatten ++
        if closesSentence words then [] else delimiterChar.toList := by
  have whole := nonSpace_intercalate areWords
  cases delimiterChar with
  | none =>
      simpa [joinWords] using whole
  | some delimiter =>
      have solid : isspace delimiter = false :=
        isspace_of_isSentenceDelimiter delimiter (delims delimiter rfl)
      rw [joinWords_some]
      split
      · rw [whole, List.append_nil]
      · rw [nonSpace] at whole ⊢
        rw [List.filter_append, whole]
        simp [solid]

/-- The text is made of words, the last of which took the delimiter. -/
theorem exists_words_joinWords :
    ∃ joined : List CString,
      (∀ word ∈ joined, IsWord isspace word) ∧
        joinWords words delimiterChar =
          List.intercalate (str " ") joined := by
  cases delimiterChar with
  | none =>
      exact ⟨words, areWords, rfl⟩
  | some delimiter =>
      have solid : isspace delimiter = false :=
        isspace_of_isSentenceDelimiter delimiter (delims delimiter rfl)
      rw [joinWords_some]
      split
      · exact ⟨words, areWords, rfl⟩
      · rcases List.eq_nil_or_concat words with rfl | ⟨front, last, rfl⟩
        · refine ⟨[[delimiter]], ?_, by simp [List.intercalate]⟩
          intro word listed
          rw [List.mem_singleton.mp listed]
          exact ⟨by simp, by simpa using solid⟩
        · rw [List.concat_eq_append] at areWords ⊢
          refine ⟨front ++ [last ++ [delimiter]], ?_, ?_⟩
          · intro word listed
            rcases List.mem_append.mp listed with early | final
            · exact areWords word (by simp [early])
            · obtain rfl := List.mem_singleton.mp final
              have isWord := areWords last (by simp)
              refine ⟨by simp, fun c member => ?_⟩
              rcases List.mem_append.mp member with inWord | isDelimiter
              · exact isWord.solid c inWord
              · rw [List.mem_singleton.mp isDelimiter]
                exact solid
          · rw [str_space, intercalate_append_last]

/-- `join_words` leaves single spaces between the words. -/
theorem intercalate_spacedWords_joinWords :
    List.intercalate (str " ")
        (spacedWords isspace (joinWords words delimiterChar)) =
      joinWords words delimiterChar := by
  obtain ⟨joined, joinedWords, text_eq⟩ :=
    exists_words_joinWords areWords delims
  rw [text_eq, str_space,
    spacedWords_intercalate isspace_space joinedWords]

end JoinWords

/-! ## One edit -/

section Edit

variable
  {text content : CString}
  {wordIndex : Int}

theorem finalDelimiter_eq (text : CString) :
    (match (withoutTrailingSpace text).getLast? with
      | some c => if isSentenceDelimiter c then some c else none
      | none => none) = finalDelimiter text := by
  rw [finalDelimiter]
  cases (withoutTrailingSpace text).getLast? with
  | none =>
      rfl
  | some c =>
      rw [Option.filter_some]

theorem isSentenceDelimiter_of_mem :
    ∀ c ∈ finalDelimiter text, isSentenceDelimiter c = true := by
  intro c found
  exact (Option.filter_eq_some_iff.mp found).2

/-- `ss_apply_word_edit` in terms of the words and the final delimiter. -/
theorem ssApplyWordEdit_eq :
    ssApplyWordEdit text wordIndex content =
      let words := wordsBeforeDelimiter text
      if wordIndex < 0 then
        none
      else if wordIndex > words.length + 1 then
        none
      else
        let newWords := splitWords content
        if newWords.length > 0 then
          let insertPos :=
            if wordIndex > words.length then words.length
            else wordIndex.toNat
          some (joinWords
            (words.take insertPos ++ newWords ++ words.drop insertPos)
            (finalDelimiter text))
        else
          some (joinWords words (finalDelimiter text)) := by
  rw [wordsBeforeDelimiter, ← finalDelimiter_eq, ← splitWords_eq]
  rfl

theorem ssApplyWordEdit_outside
    (outside :
      wordIndex < 0 ∨
        wordIndex > (wordsBeforeDelimiter text).length + 1) :
    ssApplyWordEdit text wordIndex content = none := by
  rw [ssApplyWordEdit_eq]
  rcases outside with negative | beyond
  · exact if_pos negative
  · have nonneg : ¬wordIndex < 0 := by omega
    simp only [nonneg, beyond, ↓reduceIte]

/-- An edit at a word of the sentence, or behind its last one. -/
theorem ssApplyWordEdit_inside
    (inside :
      ¬(wordIndex < 0 ∨
        wordIndex > (wordsBeforeDelimiter text).length + 1)) :
    ssApplyWordEdit text wordIndex content =
      some (joinWords
        ((wordsBeforeDelimiter text).take wordIndex.toNat ++
          splitWords content ++
          (wordsBeforeDelimiter text).drop wordIndex.toNat)
        (finalDelimiter text)) := by
  obtain ⟨nonneg, notBeyond⟩ := not_or.mp inside
  rw [ssApplyWordEdit_eq]
  simp only [nonneg, notBeyond, ↓reduceIte]
  split
  · split
    · next beyond =>
        rw [List.take_length, List.drop_length,
          List.take_of_length_le (by omega),
          List.drop_of_length_le (by omega)]
    · rfl
  · next blank =>
      have noWords : splitWords content = [] := by
        simpa using blank
      rw [noWords, List.append_nil, List.take_append_drop]

theorem closesSentence_append
    (front : List CString)
    {back : List CString}
    (nonempty : back ≠ []) :
    closesSentence (front ++ back) = closesSentence back := by
  rw [closesSentence, closesSentence,
    List.getLast?_append_of_ne_nil front nonempty]

/-- The last word after an edit is the last old one, or the last new one. -/
theorem closesSentence_inserted
    (words : List CString)
    (content : CString)
    (nonneg : ¬wordIndex < 0) :
    closesSentence
        (words.take wordIndex.toNat ++ splitWords content ++
          words.drop wordIndex.toNat) =
      if wordIndex < words.length ∨ nonSpace content = [] then
        closesSentence words
      else
        (finalDelimiter content).isSome := by
  have whole := List.take_append_drop wordIndex.toNat words
  split
  · next oldLast =>
      by_cases behind : words.drop wordIndex.toNat = []
      · have blank : splitWords content = [] := by
          refine splitWords_eq_nil_iff.mpr (oldLast.resolve_left ?_)
          rw [List.drop_eq_nil_iff] at behind
          omega
        rw [blank, List.append_nil, whole]
      · rw [closesSentence_append _ behind]
        conv_rhs => rw [← whole]
        rw [closesSentence_append _ behind]
  · next newLast =>
      obtain ⟨behind, notBlank⟩ := not_or.mp newLast
      have newWords : splitWords content ≠ [] :=
        fun none => notBlank (splitWords_eq_nil_iff.mp none)
      rw [List.drop_of_length_le (by omega), List.append_nil,
        closesSentence_append _ newWords, closesSentence_splitWords]

/-- An edit inserts exactly if no delimiter is dropped that its content lacks. -/
theorem onlyInserts_iff_kept
    {session : WriteSession}
    (inside :
      ¬(wordIndex < 0 ∨
        wordIndex >
          (wordsBeforeDelimiter session.sentenceWorking).length + 1)) :
    OnlyInserts session wordIndex content ↔
      (closesSentence
          ((wordsBeforeDelimiter session.sentenceWorking).take
              wordIndex.toNat ++
            splitWords content ++
            (wordsBeforeDelimiter session.sentenceWorking).drop
              wordIndex.toNat) →
        finalDelimiter session.sentenceWorking = none ∨
          wordIndex ≥
              (wordsBeforeDelimiter session.sentenceWorking).length ∧
            (finalDelimiter content).isSome) := by
  have delims := @isSentenceDelimiter_of_mem session.sentenceWorking
  have applied := @ssApplyWordEdit_inside _ content _ inside
  simp only [OnlyInserts, inside, ↓reduceIte, WriteSession.applyWordEdit,
    applied]
  generalize edited :
    (wordsBeforeDelimiter session.sentenceWorking).take wordIndex.toNat ++
      splitWords content ++
      (wordsBeforeDelimiter session.sentenceWorking).drop
        wordIndex.toNat = words
  have areWords : ∀ word ∈ words, IsWord isspace word := by
    intro word listed
    have origin :
        word ∈ wordsBeforeDelimiter session.sentenceWorking ∨
          word ∈ splitWords content := by
      rw [← edited, List.mem_append, List.mem_append] at listed
      rcases listed with (early | inserted) | late
      · exact .inl (List.mem_of_mem_take early)
      · exact .inr inserted
      · exact .inl (List.mem_of_mem_drop late)
    rcases origin with old | new
    · exact isWord_of_mem old
    · exact isWord_of_mem (splitWords_eq content ▸ new)
  have characters := nonSpace_joinWords areWords delims
  have spacing := intercalate_spacedWords_joinWords areWords delims
  have flattened :
      words.flatten =
        ((wordsBeforeDelimiter session.sentenceWorking).take
            wordIndex.toNat).flatten ++ nonSpace content ++
          ((wordsBeforeDelimiter session.sentenceWorking).drop
            wordIndex.toNat).flatten := by
    rw [← edited, List.flatten_append, List.flatten_append,
      flatten_splitWords]
  constructor
  · rintro ⟨joined, kept, result, inserted, allowed, -⟩ closes
    obtain rfl : joinWords words _ = joined := by
      injection result with sessions _
      injection sessions
    rw [characters, if_pos closes, ← flattened,
      List.append_cancel_left_eq] at inserted
    subst inserted
    rcases allowed with whole | ⟨-, behind, ends⟩
    · exact .inl (Option.toList_eq_nil_iff.mp whole.symm)
    · exact .inr ⟨behind, ends⟩
  · intro allowed
    refine ⟨_, _, rfl, by rw [characters, flattened], ?_, spacing⟩
    by_cases closes : closesSentence words = true
    · rw [if_pos closes]
      rcases allowed closes with absent | ⟨behind, ends⟩
      · exact .inl (by rw [absent]; rfl)
      · exact .inr ⟨rfl, behind, ends⟩
    · rw [if_neg closes]
      exact .inl rfl

end Edit

/-- A word edit only inserts, unless it drops a delimiter of the sentence. -/
theorem onlyInserts_iff
    (session : WriteSession)
    (wordIndex : Int)
    (content : CString) :
    OnlyInserts session wordIndex content ↔
      ¬DropsDelimiter session.sentenceWorking wordIndex content := by
  by_cases outside :
      wordIndex < 0 ∨
        wordIndex >
          (wordsBeforeDelimiter session.sentenceWorking).length + 1
  · constructor
    · rintro - ⟨nonneg, inside, -⟩
      rcases outside with negative | beyond
      · exact absurd negative (by omega)
      · exact absurd beyond (by omega)
    · intro _
      simp only [OnlyInserts, outside, ↓reduceIte,
        WriteSession.applyWordEdit, ssApplyWordEdit_outside outside]
  · obtain ⟨nonneg, notBeyond⟩ := not_or.mp outside
    rw [onlyInserts_iff_kept outside, closesSentence_inserted _ _ nonneg]
    constructor
    · rintro allowed ⟨-, -, delimited, closes, oldLast⟩
      rw [if_pos oldLast] at allowed
      rcases allowed closes with absent | ⟨behind, ends⟩
      · rw [absent] at delimited
        simp at delimited
      · have blank := oldLast.resolve_left (by omega)
        rw [finalDelimiter, ← getLast?_nonSpace, blank] at ends
        simp at ends
    · intro kept closes
      by_cases delimited :
          (finalDelimiter session.sentenceWorking).isSome = true
      · split at closes
        · next oldLast =>
            exact absurd
              ⟨by omega, by omega, delimited, closes, oldLast⟩ kept
        · next newLast =>
            exact .inr ⟨by omega, closes⟩
      · exact .inl (by simpa using delimited)

/-- `wow x!!` is reached by an edit, and an edit in front of it drops a `!`. -/
theorem onlyInserts_fails_twoDelimiters :
    ¬∀ session : WriteSession,
      WorkingText session.sentenceWorking →
        ∀ wordIndex content, OnlyInserts session wordIndex content := by
  intro always
  have cut : WorkingText (str "wow.") :=
    @WorkingText.cut (str "wow.") 0 0 4 (by decide +kernel)
  have reached : WorkingText (str "wow x!!") :=
    @WorkingText.edited _ _ (str "x!!") 1 cut (by decide +kernel)
  have inserts :=
    always ⟨0, 0, str "alice", 0, 0, 4, str "wow.", str "wow x!!"⟩ reached 0
      (str "hi")
  rw [onlyInserts_iff] at inserts
  exact inserts
    ⟨by decide, by decide, by decide +kernel, by decide +kernel,
      .inl (by decide +kernel)⟩

end DistributedDocs
