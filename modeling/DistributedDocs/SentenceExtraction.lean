import DistributedDocs.WordEdits

namespace DistributedDocs

/-!
# Sentence extraction

`extract_sentence` walks a text as `ss_get_sentence_bounds` does and copies the
sentence it finds.  Behind the last delimiter of a text, where a session may
append, it finds none.
-/

/-- The outer `while (*end)` loop of `extract_sentence`. -/
def extractSentenceLoop
    (text : CString)
    (sentenceIndex : Int) :
    CString → Int → Nat → Nat → Option CString
  | [], currentSentence, start, stop =>
      if currentSentence = sentenceIndex ∧ stop > start then
        some (slice text start stop)
      else
        none
  | c :: rest, currentSentence, start, stop =>
      if isSentenceDelimiter c then
        if currentSentence = sentenceIndex then
          some (slice text start (stop + 1))
        else
          -- the inner loop skips the white space after the delimiter
          let skipped := (rest.takeWhile isspace).length
          extractSentenceLoop text sentenceIndex (rest.dropWhile isspace)
            (currentSentence + 1) (stop + 1 + skipped) (stop + 1 + skipped)
      else
        extractSentenceLoop text sentenceIndex rest currentSentence start
          (stop + 1)
termination_by rest => rest.length
decreasing_by
  · have := (List.dropWhile_suffix (l := rest) isspace).length_le
    simp only [List.length_cons]
    omega
  · simp

/-- `extract_sentence`: `none` where the source returns NULL. -/
def extractSentence
    (text : CString)
    (sentenceIndex : Int) : Option CString :=
  if sentenceIndex < 0 then
    none
  else
    let start := (text.takeWhile isspace).length
    let rest := text.dropWhile isspace
    if sentenceIndex = 0 ∧ rest = [] then
      some []
    else
      extractSentenceLoop text sentenceIndex rest 0 start start

/-- The part of a text `extract_sentence` copies, unless it is empty. -/
def copied (text : CString) (range : Nat × Nat) : Option CString :=
  if range.1 < range.2 then some (slice text range.1 range.2) else none

/-- Both loops stop at the same place. -/
theorem extractSentenceLoop_eq
    (text : CString)
    (sentenceIndex : Int)
    {rest : CString}
    {current : Int}
    {start cursor : Nat}
    (begun : start ≤ cursor) :
    extractSentenceLoop text sentenceIndex rest current start cursor =
      (ssGetSentenceBoundsLoop sentenceIndex rest current start
        cursor).bind (copied text) := by
  fun_induction ssGetSentenceBoundsLoop sentenceIndex rest current start
      cursor with
  | case1 current start cursor here =>
      rw [extractSentenceLoop, Option.bind_some, copied]
      simp only [here.1, true_and, gt_iff_lt]
  | case2 current start cursor notHere =>
      rw [extractSentenceLoop, if_neg, Option.bind_none]
      exact fun here => notHere ⟨here.1, begun⟩
  | case3 c rest start cursor delim stop =>
      rw [extractSentenceLoop, if_pos delim, if_pos rfl, Option.bind_some,
        copied, if_pos (Nat.lt_succ_of_le begun)]
  | case4 c rest current start cursor delim stop notHere skipped
      inductionHypothesis =>
      rw [extractSentenceLoop, if_pos delim, if_neg notHere]
      exact inductionHypothesis (Nat.le_refl _)
  | case5 c rest current start cursor notDelim inductionHypothesis =>
      rw [extractSentenceLoop, if_neg notDelim]
      exact inductionHypothesis (Nat.le_succ_of_le begun)

/-- What is extracted is the sentence, if there is anything in it. -/
theorem extractSentence_of_not_blank
    {text : CString}
    (notBlank : text.dropWhile isspace ≠ [])
    (index : Int) :
    extractSentence text index =
      (ssGetSentenceBounds text index).bind (copied text) := by
  rw [extractSentence, ssGetSentenceBounds]
  split
  · rfl
  · simp only [notBlank, and_false, ↓reduceIte]
    exact extractSentenceLoop_eq text index (Nat.le_refl _)

/-- A blank text has one sentence, and that is empty. -/
theorem extractSentence_of_blank
    {text : CString}
    (blank : text.dropWhile isspace = [])
    (index : Int) :
    extractSentence text index =
      (ssGetSentenceBounds text index).map
        fun range => slice text range.1 range.2 := by
  rw [extractSentence, ssGetSentenceBounds]
  split
  · rfl
  · by_cases first : index = 0
    · simp [blank, first, slice]
    · simp [blank, first, extractSentenceLoop, Ne.symm first]

/-! ## Behind the last delimiter -/

/-- The index behind the last sentence of a text that ends with a delimiter. -/
def AppendPosition (text : CString) (index : Int) : Prop :=
  index = countSentences text ∧ (finalDelimiter text).isSome

instance (text : CString) (index : Int) :
    Decidable (AppendPosition text index) :=
  inferInstanceAs (Decidable (_ ∧ _))

theorem dropWhile_eq_nil_iff (text : CString) :
    text.dropWhile isspace = [] ↔ nonSpace text = [] := by
  rw [List.dropWhile_eq_nil_iff, nonSpace, List.filter_eq_nil_iff]
  simp only [Bool.not_eq_true', Bool.not_eq_false]

theorem finalDelimiter_isSome_iff (text : CString) :
    (finalDelimiter text).isSome = true ↔
      ∃ c, (nonSpace text).getLast? = some c ∧
        isSentenceDelimiter c = true := by
  rw [finalDelimiter, ← getLast?_nonSpace, Option.isSome_iff_exists]
  simp only [Option.filter_eq_some_iff]

section Located

variable
  {text before body after : CString}
  {index : Nat}
  (located : sentences.Located 0 text index before body after)

include located

/-- Nothing is behind an empty sentence, and no delimiter follows. -/
theorem eq_before_of_empty (empty : body = []) :
    text = before ∧ index = countSentences text := by
  have notClosed : ¬sentences.Closed body := by
    intro closed
    have delimited := closed.countP_eq_one
    rw [empty] at delimited
    cases delimited
  have listed :
      (ssGetSentenceBounds text index).isSome = true := by
    rw [ssGetSentenceBounds_eq_ranges, located.getElem?_ranges]
    rfl
  have bounded := (ssGetSentenceBounds_isSome_iff text index).mp listed
  have notEarlier := mt (closed_iff_of_located located).mpr notClosed
  rcases located.shape with closed | ⟨nothingBehind, _⟩
  · exact absurd closed notClosed
  · constructor
    · simpa [empty, nothingBehind] using located.text_eq
    · omega

/-- An empty sentence of a text that is not blank is behind a delimiter. -/
theorem appendPosition_of_empty
    (empty : body = [])
    (notBlank : nonSpace text ≠ []) :
    AppendPosition text index := by
  obtain ⟨isBefore, isLast⟩ := eq_before_of_empty located empty
  refine ⟨congrArg Nat.cast isLast, ?_⟩
  obtain ⟨c, last⟩ : ∃ c, (nonSpace text).getLast? = some c :=
    Option.isSome_iff_exists.mp (by simpa using notBlank)
  have between :
      (sentences.scan (.fresh 0) text).2.skipping = true := by
    conv_lhs => rw [isBefore, located.cursor_before]
    rfl
  exact (finalDelimiter_isSome_iff text).mpr
    ⟨c, last, sentences.delim_of_skipping between last⟩

/-- A sentence with something in it is not behind the last delimiter. -/
theorem not_appendPosition_of_nonempty (nonempty : body ≠ []) :
    ¬AppendPosition text index := by
  rintro ⟨isLast, delimited⟩
  obtain ⟨c, last, delim⟩ := (finalDelimiter_isSome_iff text).mp delimited
  rcases located.shape with closed | ⟨nothingBehind, noDelim⟩
  · have earlier := (closed_iff_of_located located).mp closed
    omega
  · obtain ⟨first, others, rfl⟩ := List.exists_cons_of_ne_nil nonempty
    have solid : isspace first = false :=
      located.no_space_head first rfl
    have parts : nonSpace text = nonSpace before ++ nonSpace (first :: others) := by
      rw [located.text_eq, nothingBehind, List.append_nil, nonSpace,
        List.filter_append]
      rfl
    have bodySolid : nonSpace (first :: others) ≠ [] := by
      simp [nonSpace, solid]
    rw [parts, List.getLast?_append_of_ne_nil _ bodySolid] at last
    have listed : c ∈ first :: others :=
      List.mem_of_mem_filter (List.mem_of_getLast? last)
    exact List.countP_eq_zero.mp noDelim c listed delim

end Located

/--
Both locators mean the same sentence by an index, but where a text ends with a
delimiter `ss_get_sentence_bounds` also finds the empty sentence behind it.
-/
theorem extractSentence_eq_bounds
    (text : CString)
    (index : Int) :
    if AppendPosition text index then
      extractSentence text index = none ∧
        ssGetSentenceBounds text index = some (text.length, text.length)
    else
      extractSentence text index =
        (ssGetSentenceBounds text index).map
          fun range => slice text range.1 range.2 := by
  split
  · next atEnd =>
    have notBlank : text.dropWhile isspace ≠ [] := by
      intro blank
      rw [dropWhile_eq_nil_iff] at blank
      obtain ⟨c, last, _⟩ := (finalDelimiter_isSome_iff text).mp atEnd.2
      rw [blank] at last
      cases last
    have listed : (ssGetSentenceBounds text index).isSome = true := by
      rw [ssGetSentenceBounds_isSome_iff, atEnd.1]
      omega
    obtain ⟨⟨start, stop⟩, found⟩ := Option.isSome_iff_exists.mp listed
    obtain ⟨before, body, after, located, startIs, stopIs⟩ :=
      located_of_ssGetSentenceBounds found
    have nonneg := Int.toNat_of_nonneg (ssGetSentenceBounds_nonneg found)
    have empty : body = [] := by
      by_contra nonempty
      apply not_appendPosition_of_nonempty located nonempty
      rwa [nonneg]
    obtain ⟨isBefore, _⟩ := eq_before_of_empty located empty
    rw [extractSentence_of_not_blank notBlank, found, startIs, stopIs, empty,
      isBefore]
    simp [copied]
  · next notAtEnd =>
    by_cases blank : text.dropWhile isspace = []
    · exact extractSentence_of_blank blank index
    · rw [extractSentence_of_not_blank blank]
      cases found : ssGetSentenceBounds text index with
      | none =>
          rfl
      | some range =>
          obtain ⟨before, body, after, located, startIs, stopIs⟩ :=
            @located_of_ssGetSentenceBounds text index range.1 range.2 found
          have nonneg := Int.toNat_of_nonneg (ssGetSentenceBounds_nonneg found)
          have nonempty : body ≠ [] := by
            intro empty
            apply notAtEnd
            have atEnd :=
              appendPosition_of_empty located empty
                (mt (dropWhile_eq_nil_iff text).mpr blank)
            rwa [nonneg] at atEnd
          have something := List.length_pos_iff.mpr nonempty
          rw [Option.bind_some, copied, if_pos (by omega), Option.map_some]

/-- `Hi.` has a sentence with index 1 for the lock handler only. -/
theorem not_extractSentence_eq_bounds :
    ¬∀ (text : CString) (index : Int), 0 ≤ index →
      extractSentence text index =
        (ssGetSentenceBounds text index).map
          fun range => slice text range.1 range.2 := by
  intro same
  exact absurd (same (str "Hi.") 1 (by decide)) (by decide +kernel)

end DistributedDocs
