import DistributedDocs.CString
import DistributedDocs.Segmentation
import DistributedDocs.SlottedText

namespace DistributedDocs

/-!
# Sentences and words

The scanners of `storage_server.c` and `utils.c`.  `ss_get_sentence_bounds`
walks the text with two nested loops; it is shown to read off the ranges of
the segmenter whose delimiters are `.`, `!` and `?`.
-/

/-- The segmenter behind every sentence index. -/
def sentences : Segmenter CChar where
  isSpace := isspace
  isDelim := isSentenceDelimiter
  delim_not_space := isspace_of_isSentenceDelimiter

/-- The outer `while (*cursor)` loop of `ss_get_sentence_bounds`. -/
def ssGetSentenceBoundsLoop
    (sentenceIndex : Int) :
    CString → Int → Nat → Nat → Option (Nat × Nat)
  | [], current, sentenceStart, cursor =>
      if current = sentenceIndex ∧ sentenceStart ≤ cursor then
        some (sentenceStart, cursor)
      else
        none
  | c :: rest, current, sentenceStart, cursor =>
      if isSentenceDelimiter c then
        let sentenceEnd := cursor + 1
        if current = sentenceIndex then
          some (sentenceStart, sentenceEnd)
        else
          -- the inner loop skips the white space after the delimiter
          let skipped := (rest.takeWhile isspace).length
          ssGetSentenceBoundsLoop sentenceIndex (rest.dropWhile isspace)
            (current + 1) (sentenceEnd + skipped) (sentenceEnd + skipped)
      else
        ssGetSentenceBoundsLoop sentenceIndex rest current sentenceStart
          (cursor + 1)
termination_by text => text.length
decreasing_by
  · have := (List.dropWhile_suffix (l := rest) isspace).length_le
    simp only [List.length_cons]
    omega
  · simp

/-- `ss_get_sentence_bounds`: `none` where the source returns -1. -/
def ssGetSentenceBounds
    (text : CString)
    (sentenceIndex : Int) : Option (Nat × Nat) :=
  if sentenceIndex < 0 then
    none
  else
    let sentenceStart := (text.takeWhile isspace).length
    let rest := text.dropWhile isspace
    if rest = [] then
      if sentenceIndex = 0 then
        some (sentenceStart, sentenceStart)
      else
        none
    else
      ssGetSentenceBoundsLoop sentenceIndex rest 0 sentenceStart sentenceStart

/-- Skipping spaces first changes nothing for a cursor that skips them anyway. -/
theorem ranges_after_spaces
    (position : Nat)
    (text : CString) :
    sentences.ranges (.fresh position) text =
      sentences.ranges
        ⟨position + (text.takeWhile isspace).length,
          position + (text.takeWhile isspace).length, false⟩
        (text.dropWhile isspace) := by
  have spaces :
      ∀ c ∈ text.takeWhile isspace, sentences.isSpace c = true :=
    fun c member => List.mem_takeWhile_imp member
  have scanned := sentences.scan_spaces position spaces
  have split :
      sentences.ranges (.fresh position) text =
        sentences.ranges
          (.fresh (position + (text.takeWhile isspace).length))
          (text.dropWhile isspace) := by
    conv_lhs =>
      rw [← List.takeWhile_append_dropWhile (p := isspace) (l := text),
        sentences.ranges_append, scanned]
    rfl
  rw [split]
  cases rest : text.dropWhile isspace with
  | nil =>
      rfl
  | cons c others =>
      have notSpace : sentences.isSpace c = false := by
        have stopped := List.head?_dropWhile_not isspace text
        rw [rest] at stopped
        simpa [sentences] using stopped
      have begun :=
        @Segmenter.scan_begun_eq _ sentences
          (position + (text.takeWhile isspace).length)
          (position + (text.takeWhile isspace).length) (c :: others)
          (by simpa using notSpace) (by simp)
      simp only [Segmenter.ranges, Segmenter.Cursor.fresh, begun]

/-- The loop reads the ranges from its current sentence onwards. -/
theorem ssGetSentenceBoundsLoop_eq
    (sentenceIndex : Int)
    (text : CString)
    (current : Int)
    (sentenceStart cursor : Nat)
    (notPast : current ≤ sentenceIndex)
    (begun : sentenceStart ≤ cursor) :
    ssGetSentenceBoundsLoop sentenceIndex text current sentenceStart cursor =
      (sentences.ranges ⟨sentenceStart, cursor, false⟩
        text)[(sentenceIndex - current).toNat]? := by
  fun_induction ssGetSentenceBoundsLoop sentenceIndex text current
      sentenceStart cursor with
  | case1 current sentenceStart cursor here =>
      simp [Segmenter.ranges, here.1]
  | case2 current sentenceStart cursor notHere =>
      have later : (sentenceIndex - current).toNat ≠ 0 := by
        intro same
        exact notHere ⟨by omega, begun⟩
      simp [Segmenter.ranges, later]
  | case3 c rest sentenceStart cursor delim sentenceEnd =>
      have step :
          sentences.step ⟨sentenceStart, cursor, false⟩ c =
            (some (sentenceStart, cursor + 1), .fresh (cursor + 1)) := by
        simp [Segmenter.step, sentences, delim]
      simp [Segmenter.ranges, Segmenter.scan_cons, step, sentenceEnd]
  | case4 c rest current sentenceStart cursor delim sentenceEnd notHere
      skipped inductionHypothesis =>
      have step :
          sentences.step ⟨sentenceStart, cursor, false⟩ c =
            (some (sentenceStart, cursor + 1), .fresh (cursor + 1)) := by
        simp [Segmenter.step, sentences, delim]
      have unfolded :
          sentences.ranges ⟨sentenceStart, cursor, false⟩ (c :: rest) =
            (sentenceStart, cursor + 1) ::
              sentences.ranges (.fresh (cursor + 1)) rest := by
        simp [Segmenter.ranges, Segmenter.scan_cons, step]
      have number :
          (sentenceIndex - current).toNat =
            (sentenceIndex - (current + 1)).toNat + 1 := by
        omega
      rw [inductionHypothesis (by omega) (le_refl _), unfolded, number,
        List.getElem?_cons_succ, ranges_after_spaces]
  | case5 c rest current sentenceStart cursor notDelim inductionHypothesis =>
      have step :
          sentences.step ⟨sentenceStart, cursor, false⟩ c =
            (none, ⟨sentenceStart, cursor + 1, false⟩) := by
        simp [Segmenter.step, sentences, notDelim]
      rw [inductionHypothesis notPast (by omega)]
      simp [Segmenter.ranges, Segmenter.scan_cons, step]

/-- `ss_get_sentence_bounds` reads off the ranges of the segmenter. -/
theorem ssGetSentenceBounds_eq_ranges
    (text : CString)
    (index : Nat) :
    ssGetSentenceBounds text index =
      (sentences.ranges (.fresh 0) text)[index]? := by
  rw [ranges_after_spaces]
  simp only [ssGetSentenceBounds, Nat.zero_add]
  rw [if_neg (by omega)]
  by_cases blank : text.dropWhile isspace = []
  · rw [if_pos blank, blank]
    cases index with
    | zero =>
        simp [Segmenter.ranges]
    | succ index =>
        rw [if_neg (by omega)]
        simp [Segmenter.ranges]
  · rw [if_neg blank,
      ssGetSentenceBoundsLoop_eq _ _ _ _ _ (by omega) (le_refl _)]
    simp

theorem ssGetSentenceBounds_nonneg
    {text : CString}
    {index : Int}
    {range : Nat × Nat}
    (found : ssGetSentenceBounds text index = some range) :
    0 ≤ index := by
  by_contra negative
  simp [ssGetSentenceBounds, Int.not_le.mp negative] at found

/-- A successful lookup is one of the segmenter's ranges. -/
theorem ranges_of_ssGetSentenceBounds
    {text : CString}
    {index : Int}
    {range : Nat × Nat}
    (found : ssGetSentenceBounds text index = some range) :
    (sentences.ranges (.fresh 0) text)[index.toNat]? = some range := by
  have nonneg := ssGetSentenceBounds_nonneg found
  rw [← ssGetSentenceBounds_eq_ranges, Int.toNat_of_nonneg nonneg]
  exact found

/-- A sentence the segmenter finds splits the text around it. -/
theorem located_of_ssGetSentenceBounds
    {text : CString}
    {index : Int}
    {start stop : Nat}
    (found : ssGetSentenceBounds text index = some (start, stop)) :
    ∃ before body after,
      sentences.Located 0 text index.toNat before body after ∧
        start = before.length ∧ stop = before.length + body.length := by
  have listed := ranges_of_ssGetSentenceBounds found
  obtain ⟨before, body, after, located⟩ :=
    sentences.exists_located 0 text listed
  have same := located.getElem?_ranges
  rw [listed, Option.some.injEq, Prod.mk.injEq] at same
  exact ⟨before, body, after, located, by simpa using same.1,
    by simpa using same.2⟩

/-- `count_sentences_in_span` -/
def countSentencesInSpan (text : CString) (start stop : Nat) : Nat :=
  if start ≥ stop then
    0
  else
    let count := (slice text start stop).countP isSentenceDelimiter
    if count = 0 then 1 else count

/-- The count for a whole string, as `handle_client_etirw` takes it. -/
def sentenceCount (text : CString) : Nat :=
  countSentencesInSpan text 0 text.length

theorem slice_of_located
    {text before body after : CString}
    (text_eq : text = before ++ body ++ after) :
    slice text before.length (before.length + body.length) = body := by
  rw [text_eq]
  simp [slice]

theorem countSentencesInSpan_eq
    {text : CString}
    {start stop : Nat}
    (inText : stop ≤ text.length) :
    countSentencesInSpan text start stop =
      sentenceCount (slice text start stop) := by
  have whole : slice (slice text start stop) 0
      (slice text start stop).length = slice text start stop := by
    simp [slice]
  have size : (slice text start stop).length = stop - start := by
    rw [slice, List.length_take, List.length_drop]
    omega
  by_cases empty : start ≥ stop
  · simp only [sentenceCount, countSentencesInSpan, size, empty, ↓reduceIte]
    rw [if_pos (by omega)]
  · have nonempty : ¬0 ≥ (slice text start stop).length := by
      omega
    simp only [sentenceCount, countSentencesInSpan, empty, nonempty, whole,
      ↓reduceIte]

/-- `count_sentences` -/
def countSentences (text : CString) : Nat :=
  text.countP isSentenceDelimiter

theorem ne_nil_of_sentenceCount
    {text : CString}
    (counted : sentenceCount text = 1) :
    text ≠ [] := by
  rintro rfl
  simp [sentenceCount, countSentencesInSpan] at counted

/-- An earlier sentence is complete and ends before a later one starts. -/
theorem ssGetSentenceBounds_of_lt
    {text : CString}
    {first second : Int}
    {firstRange secondRange : Nat × Nat}
    (earlier : first < second)
    (firstFound : ssGetSentenceBounds text first = some firstRange)
    (secondFound : ssGetSentenceBounds text second = some secondRange) :
    firstRange.2 ≤ secondRange.1 ∧
      sentenceCount (slice text firstRange.1 firstRange.2) = 1 := by
  have firstNonneg := ssGetSentenceBounds_nonneg firstFound
  have secondListed := ranges_of_ssGetSentenceBounds secondFound
  obtain ⟨before, body, after, located⟩ :=
    sentences.exists_located 0 text secondListed
  have same := located.getElem?_ranges
  rw [secondListed, Option.some.injEq] at same
  have firstListed := ranges_of_ssGetSentenceBounds firstFound
  have numbers : first.toNat < second.toNat := by omega
  obtain ⟨stopBound, _⟩ := located.stop_le_of_lt numbers firstListed
  obtain ⟨front, segment, rest, firstLocated, closed, rfl⟩ :=
    located.exists_closed_of_lt numbers firstListed
  have selected := slice_of_located firstLocated.text_eq
  have counted : segment.countP isSentenceDelimiter = 1 :=
    closed.countP_eq_one
  have nonempty : segment ≠ [] := by
    rintro rfl
    simp at counted
  refine ⟨by simpa [same] using stopBound, ?_⟩
  rw [selected, sentenceCount, countSentencesInSpan,
    if_neg (by simpa using nonempty)]
  simp [slice, counted]

/-- A sentence lies within its text. -/
theorem ssGetSentenceBounds_le
    {text : CString}
    {index : Int}
    {range : Nat × Nat}
    (found : ssGetSentenceBounds text index = some range) :
    range.1 ≤ range.2 ∧ range.2 ≤ text.length := by
  obtain ⟨before, body, after, located, start, stop⟩ :=
    @located_of_ssGetSentenceBounds text index range.1 range.2 found
  rw [located.text_eq, start, stop]
  simp

/-! ## The sentences partition the text -/

/--
The sentences of a text are numbered up to the number of its delimiters, lie in
order, and take in everything but white space; all but the last end with their
only delimiter, and the last has none.
-/
structure SentencesPartition (text : CString) : Prop where
  found_iff :
    ∀ index : Int,
      (ssGetSentenceBounds text index).isSome = true ↔
        0 ≤ index ∧ index ≤ countSentences text
  within :
    ∀ index start stop,
      ssGetSentenceBounds text index = some (start, stop) →
        start ≤ stop ∧ stop ≤ text.length
  ascending :
    ∀ first second firstRange secondRange, first < second →
      ssGetSentenceBounds text first = some firstRange →
        ssGetSentenceBounds text second = some secondRange →
          firstRange.2 ≤ secondRange.1
  solid_once :
    ∀ position c, text[position]? = some c → isspace c = false →
      ∃! index, ∃ start stop,
        ssGetSentenceBounds text index = some (start, stop) ∧
          start ≤ position ∧ position < stop
  space_outside :
    ∀ position c, text[position]? = some c →
      (∀ index start stop,
        ssGetSentenceBounds text index = some (start, stop) →
          ¬(start ≤ position ∧ position < stop)) →
        isspace c = true
  complete :
    ∀ index start stop, index < countSentences text →
      ssGetSentenceBounds text index = some (start, stop) →
        start < stop ∧
          (∃ first, text[start]? = some first ∧ isspace first = false) ∧
          (∃ last, text[stop - 1]? = some last ∧
            isSentenceDelimiter last = true) ∧
          (slice text start stop).countP isSentenceDelimiter = 1
  unterminated :
    ∀ start stop,
      ssGetSentenceBounds text (countSentences text) = some (start, stop) →
        (slice text start stop).countP isSentenceDelimiter = 0

theorem ssGetSentenceBounds_isSome_iff
    (text : CString)
    (index : Int) :
    (ssGetSentenceBounds text index).isSome = true ↔
      0 ≤ index ∧ index ≤ countSentences text := by
  rcases Int.lt_or_le index 0 with negative | nonneg
  · simp [ssGetSentenceBounds, negative, Int.not_le.mpr negative]
  · obtain ⟨number, rfl⟩ := Int.eq_ofNat_of_zero_le nonneg
    have size := sentences.length_ranges (.fresh 0) text
    rw [ssGetSentenceBounds_eq_ranges, Option.isSome_iff_ne_none, ne_eq,
      List.getElem?_eq_none_iff, size]
    simp only [countSentences, sentences]
    omega

/-- Whatever is no white space lies in a sentence. -/
theorem exists_sentence_of_solid
    {text : CString}
    {position : Nat}
    {c : CChar}
    (here : text[position]? = some c)
    (solid : isspace c = false) :
    ∃ index start stop,
      ssGetSentenceBounds text index = some (start, stop) ∧
        start ≤ position ∧ position < stop := by
  obtain ⟨⟨start, stop⟩, member, low, high⟩ :=
    @Segmenter.exists_range_of_solid _ sentences (.fresh 0) (Nat.le_refl _)
      text position c here solid
  obtain ⟨number, listed⟩ := List.getElem?_of_mem member
  refine ⟨number, start, stop, ?_, ?_, ?_⟩
  · rw [ssGetSentenceBounds_eq_ranges]
    exact listed
  · simpa [Segmenter.Cursor.fresh] using low
  · simpa [Segmenter.Cursor.fresh] using high

/-- No position lies in two sentences. -/
theorem sentence_unique
    {text : CString}
    {position : Nat}
    {first second : Int}
    {firstRange secondRange : Nat × Nat}
    (firstFound : ssGetSentenceBounds text first = some firstRange)
    (secondFound : ssGetSentenceBounds text second = some secondRange)
    (inFirst : firstRange.1 ≤ position ∧ position < firstRange.2)
    (inSecond : secondRange.1 ≤ position ∧ position < secondRange.2) :
    first = second := by
  rcases Int.lt_trichotomy first second with earlier | same | later
  · have apart := (ssGetSentenceBounds_of_lt earlier firstFound secondFound).1
    omega
  · exact same
  · have apart := (ssGetSentenceBounds_of_lt later secondFound firstFound).1
    omega

/-- Only the last sentence lacks its delimiter. -/
theorem closed_iff_of_located
    {text before body after : CString}
    {index : Nat}
    (located : sentences.Located 0 text index before body after) :
    sentences.Closed body ↔ index < countSentences text := by
  have size := sentences.length_ranges (.fresh 0) text
  have counted : text.countP sentences.isDelim = countSentences text := rfl
  rw [counted] at size
  constructor
  · intro closed
    rw [located.ranges_closed closed, List.length_append,
      located.closed_before, List.length_cons,
      sentences.length_ranges] at size
    omega
  · intro earlier
    rcases located.shape with closed | ⟨rfl, noDelim⟩
    · exact closed
    · rw [located.ranges_open noDelim, List.length_append,
        located.closed_before, List.length_singleton] at size
      omega

theorem sentencesPartition (text : CString) :
    SentencesPartition text where
  found_iff := ssGetSentenceBounds_isSome_iff text
  within _ _ _ found := ssGetSentenceBounds_le found
  ascending _ _ _ _ earlier firstFound secondFound :=
    (ssGetSentenceBounds_of_lt earlier firstFound secondFound).1
  solid_once position c here solid := by
    obtain ⟨index, start, stop, found, inside⟩ :=
      exists_sentence_of_solid here solid
    refine ⟨index, ⟨start, stop, found, inside⟩, ?_⟩
    rintro other ⟨otherStart, otherStop, otherFound, otherInside⟩
    exact sentence_unique otherFound found otherInside inside
  space_outside position c here outside := by
    by_contra notSpace
    obtain ⟨index, start, stop, found, inside⟩ :=
      exists_sentence_of_solid here (Bool.eq_false_iff.mpr notSpace)
    exact outside index start stop found inside
  complete index start stop earlier found := by
    have nonneg := ssGetSentenceBounds_nonneg found
    obtain ⟨before, body, after, located, rfl, rfl⟩ :=
      located_of_ssGetSentenceBounds found
    have sliced := slice_of_located located.text_eq
    have closed := (closed_iff_of_located located).mpr (by omega)
    have delimited := closed.countP_eq_one
    obtain ⟨front, last, rfl, _, delim⟩ := closed
    have atEnd :
        before.length + (front ++ [last]).length - 1 =
          (before ++ front).length := by
      simp only [List.length_append, List.length_singleton]
      omega
    obtain ⟨first, isFirst⟩ : ∃ first, (front ++ [last]).head? = some first :=
      Option.isSome_iff_exists.mp (by simp)
    refine ⟨by simp, ⟨first, ?_, located.no_space_head first isFirst⟩,
      ⟨last, ?_, delim⟩, by rw [sliced]; exact delimited⟩
    · rw [located.text_eq, List.append_assoc, List.getElem?_append_right
        (Nat.le_refl _), Nat.sub_self, ← List.head?_eq_getElem?,
        List.head?_append, isFirst]
      rfl
    · rw [located.text_eq, atEnd, ← List.append_assoc before, List.append_assoc,
        List.getElem?_append_right (Nat.le_refl _)]
      simp
  unterminated start stop found := by
    obtain ⟨before, body, after, located, rfl, rfl⟩ :=
      located_of_ssGetSentenceBounds found
    have sliced := slice_of_located located.text_eq
    rcases located.shape with closed | ⟨_, noDelim⟩
    · have earlier := (closed_iff_of_located located).mp closed
      omega
    · rw [sliced]
      exact noDelim

/-- `split_words` -/
def splitWords (text : CString) : List CString :=
  match _unspaced : text.dropWhile isspace with
  | [] =>
      []
  | c :: rest =>
      (c :: rest).takeWhile (fun d => !isspace d) ::
        splitWords ((c :: rest).dropWhile fun d => !isspace d)
termination_by text.length
decreasing_by
  have notSpace : isspace c = false := by
    have stopped := List.head?_dropWhile_not isspace text
    rw [_unspaced] at stopped
    simpa using stopped
  have shorter :=
    (List.dropWhile_suffix (l := rest) fun d => !isspace d).length_le
  have suffix := (List.dropWhile_suffix (l := text) isspace).length_le
  rw [_unspaced, List.length_cons] at suffix
  simp only [List.dropWhile_cons, notSpace, Bool.not_false, ↓reduceIte]
  omega

/-- Whether the last character is a sentence delimiter. -/
def endsWithDelimiter (text : CString) : Bool :=
  match text.getLast? with
  | some c => isSentenceDelimiter c
  | none => false

/-- `join_words`; `none` is the source's `'\0'` for "no delimiter". -/
def joinWords (words : List CString) (delimiterChar : Option CChar) :
    CString :=
  let endsWithDelimiter :=
    match words.getLast? with
    | some lastWord => endsWithDelimiter lastWord
    | none => false
  let result := List.intercalate (str " ") words
  match delimiterChar with
  | some delimiter =>
      if endsWithDelimiter then result else result ++ [delimiter]
  | none =>
      result

/-- `ss_apply_word_edit` on the working text; `none` where it returns -1. -/
def ssApplyWordEdit
    (sentenceWorking : CString)
    (wordIndex : Int)
    (content : CString) : Option CString :=
  if wordIndex < 0 then
    none
  else
    let trimmed := (sentenceWorking.reverse.dropWhile isspace).reverse
    let delimiter :=
      match trimmed.getLast? with
      | some c => if isSentenceDelimiter c then some c else none
      | none => none
    let buffer := if delimiter.isSome then trimmed.dropLast else trimmed
    let words := splitWords buffer
    if wordIndex > words.length + 1 then
      none
    else
      let newWords := splitWords content
      if newWords.length > 0 then
        let insertPos :=
          if wordIndex > words.length then words.length
          else wordIndex.toNat
        some (joinWords
          (words.take insertPos ++ newWords ++ words.drop insertPos)
          delimiter)
      else
        some (joinWords words delimiter)

example :
    ssApplyWordEdit (str "Hello world.") 1 (str "big  wide") =
      some (str "Hello big wide world.") := by
  decide +kernel

/-! ## Texts that end a sentence -/

theorem endsWithDelimiter_iff {text : CString} :
    endsWithDelimiter text = true ↔
      ∃ front last,
        text = front ++ [last] ∧ isSentenceDelimiter last = true := by
  unfold endsWithDelimiter
  constructor
  · intro ends
    cases found : text.getLast? with
    | none =>
        simp [found] at ends
    | some last =>
        rw [found] at ends
        obtain ⟨front, rfl⟩ := List.getLast?_eq_some_iff.mp found
        exact ⟨front, last, rfl, ends⟩
  · rintro ⟨front, last, rfl, delim⟩
    simpa using delim

theorem endsWithDelimiter_append
    (front : CString)
    {text : CString}
    (ends : endsWithDelimiter text = true) :
    endsWithDelimiter (front ++ text) = true := by
  obtain ⟨initial, last, rfl, delim⟩ := endsWithDelimiter_iff.mp ends
  exact endsWithDelimiter_iff.mpr
    ⟨front ++ initial, last, by simp, delim⟩

/-- The last word stays at the end of the joined text. -/
theorem intercalate_concat
    (separator : CString)
    (front : List CString)
    (last : CString) :
    ∃ initial,
      List.intercalate separator (front ++ [last]) = initial ++ last := by
  induction front with
  | nil =>
      exact ⟨[], by simp [List.intercalate]⟩
  | cons word rest inductionHypothesis =>
      obtain ⟨initial, joined⟩ := inductionHypothesis
      cases rest with
      | nil =>
          exact ⟨word ++ separator, by simp [List.intercalate]⟩
      | cons next others =>
          refine ⟨word ++ separator ++ initial, ?_⟩
          simp only [List.intercalate, List.cons_append,
            List.intersperse_cons_cons, List.flatten_cons] at joined ⊢
          rw [joined]
          simp

theorem endsWithDelimiter_joinWords
    (words : List CString)
    {delimiter : CChar}
    (delim : isSentenceDelimiter delimiter = true) :
    endsWithDelimiter (joinWords words (some delimiter)) = true := by
  have appended :
      ∀ result : CString,
        endsWithDelimiter (result ++ [delimiter]) = true :=
    fun result =>
      endsWithDelimiter_iff.mpr ⟨result, delimiter, rfl, delim⟩
  unfold joinWords
  cases found : words.getLast? with
  | none =>
      simpa using appended _
  | some lastWord =>
      by_cases ends : endsWithDelimiter lastWord = true
      · simp only [ends, ↓reduceIte]
        obtain ⟨front, rfl⟩ := List.getLast?_eq_some_iff.mp found
        obtain ⟨initial, joined⟩ :=
          intercalate_concat (str " ") front lastWord
        rw [joined]
        exact endsWithDelimiter_append initial ends
      · simpa [ends] using appended _

/-- Editing words never takes the delimiter off the end. -/
theorem endsWithDelimiter_ssApplyWordEdit
    {sentenceWorking content joined : CString}
    {wordIndex : Int}
    (ends : endsWithDelimiter sentenceWorking = true)
    (edited :
      ssApplyWordEdit sentenceWorking wordIndex content = some joined) :
    endsWithDelimiter joined = true := by
  obtain ⟨front, last, rfl, delim⟩ := endsWithDelimiter_iff.mp ends
  have notSpace := isspace_of_isSentenceDelimiter last delim
  have trimmed :
      (((front ++ [last]).reverse.dropWhile isspace).reverse).getLast? =
        some last := by
    simp [notSpace]
  simp only [ssApplyWordEdit, trimmed, delim, ↓reduceIte,
    Option.isSome_some, Option.ite_none_left_eq_some] at edited
  obtain ⟨_, _, result⟩ := edited
  by_cases someWords : (splitWords content).length > 0
  · simp only [someWords, ↓reduceIte, Option.some.injEq] at result
    rw [← result]
    exact endsWithDelimiter_joinWords _ delim
  · simp only [someWords, ↓reduceIte, Option.some.injEq] at result
    rw [← result]
    exact endsWithDelimiter_joinWords _ delim

/-- A text that ends a sentence counts its delimiters. -/
theorem sentenceCount_of_endsWithDelimiter
    {text : CString}
    (ends : endsWithDelimiter text = true) :
    sentenceCount text = text.countP isSentenceDelimiter ∧
      0 < text.countP isSentenceDelimiter := by
  obtain ⟨front, last, rfl, delim⟩ := endsWithDelimiter_iff.mp ends
  have positive : 0 < (front ++ [last]).countP isSentenceDelimiter := by
    simp [delim]
  refine ⟨?_, positive⟩
  have whole :
      slice (front ++ [last]) 0 (front ++ [last]).length =
        front ++ [last] := by
    simp [slice]
  have notEmpty : ¬0 ≥ (front ++ [last]).length := by
    simp
  simp only [sentenceCount, countSentencesInSpan, notEmpty, ↓reduceIte,
    whole, positive.ne']

/-! ## Sentences around a splice -/

section Splice

variable
  {text : CString}
  {index other : Int}
  {start stop : Nat}
  {range : Nat × Nat}

theorem splice_of_located
    {before body after : CString}
    (text_eq : text = before ++ body ++ after)
    (replacement : CString) :
    splice text before.length (before.length + body.length) replacement =
      before ++ replacement ++ after := by
  rw [splice, text_eq, List.append_assoc before, List.take_left,
    ← List.append_assoc, ← List.length_append, List.drop_left]

/-- A sentence with a later one behind it ends with its delimiter. -/
theorem endsWithDelimiter_of_lt
    (found : ssGetSentenceBounds text index = some (start, stop))
    (otherFound : ssGetSentenceBounds text other = some range)
    (later : index < other) :
    endsWithDelimiter (slice text start stop) = true := by
  have nonneg := ssGetSentenceBounds_nonneg found
  obtain ⟨_, _, _, located, _⟩ :=
    located_of_ssGetSentenceBounds otherFound
  obtain ⟨front, segment, rest, here, closed, same⟩ :=
    located.exists_closed_of_lt (by omega : index.toNat < other.toNat)
      (ranges_of_ssGetSentenceBounds found)
  obtain ⟨rfl, rfl⟩ := Prod.mk.inj same
  have selected := slice_of_located here.text_eq
  obtain ⟨initial, last, rfl, _, delim⟩ := closed
  rw [selected]
  exact endsWithDelimiter_iff.mpr ⟨initial, last, rfl, delim⟩

/-- Replacing a sentence does not move the sentences before it. -/
theorem ssGetSentenceBounds_splice_of_lt
    (found : ssGetSentenceBounds text index = some (start, stop))
    (otherFound : ssGetSentenceBounds text other = some range)
    (earlier : other < index)
    (replacement : CString) :
    ssGetSentenceBounds (splice text start stop replacement) other =
      some range := by
  have nonneg := ssGetSentenceBounds_nonneg otherFound
  obtain ⟨before, body, after, located, rfl, rfl⟩ :=
    located_of_ssGetSentenceBounds found
  have listed := ranges_of_ssGetSentenceBounds otherFound
  rw [← Int.toNat_of_nonneg nonneg, splice_of_located located.text_eq,
    ssGetSentenceBounds_eq_ranges,
    located.getElem?_of_lt replacement after (by omega), listed]

/--
Replacing a sentence by a text that ends one moves the sentences after it by
the two differences the server computes.
-/
theorem ssGetSentenceBounds_splice_of_gt
    (found : ssGetSentenceBounds text index = some (start, stop))
    (otherFound : ssGetSentenceBounds text other = some range)
    (later : index < other)
    {replacement : CString}
    (ends : endsWithDelimiter replacement = true) :
    ssGetSentenceBounds (splice text start stop replacement)
        (other + (sentenceCount replacement - 1)) =
      some (range.1 - (stop - start) + replacement.length,
        range.2 - (stop - start) + replacement.length) := by
  have nonneg := ssGetSentenceBounds_nonneg found
  obtain ⟨before, body, after, located, rfl, rfl⟩ :=
    located_of_ssGetSentenceBounds found
  obtain ⟨counted, positive⟩ := sentenceCount_of_endsWithDelimiter ends
  obtain ⟨_, moved⟩ :=
    located.getElem?_of_gt (endsWithDelimiter_iff.mp ends)
      (by omega : index.toNat < other.toNat)
      (ranges_of_ssGetSentenceBounds otherFound)
  have number :
      other + ((sentenceCount replacement : Int) - 1) =
        ((other.toNat + replacement.countP isSentenceDelimiter - 1 : Nat) :
          Int) := by
    rw [counted]
    omega
  rw [number, ssGetSentenceBounds_eq_ranges,
    splice_of_located located.text_eq]
  simpa [sentences] using moved

end Splice

end DistributedDocs
