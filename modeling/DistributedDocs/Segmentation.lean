import Mathlib.Data.List.Basic
import Mathlib.Data.List.Induction
import Mathlib.Data.List.TakeDrop
import Mathlib.Data.List.TakeWhile

namespace DistributedDocs

/-!
# Segmenting a list at delimiters

A segmenter cuts a list at delimiters: each segment ends with its delimiter,
spaces before a segment belong to no segment, and whatever follows the last
delimiter is the open tail.  The scan is a left fold over a cursor, so it
composes over concatenation and commutes with moving the origin; the
replacement lemmas at the end follow from these two facts alone.
-/

/-- A half-open range of positions. -/
abbrev Range := Nat × Nat

namespace Range

/-- Move both ends of a range to the right. -/
def shift (distance : Nat) (range : Range) : Range :=
  (range.1 + distance, range.2 + distance)

@[simp] theorem shift_fst (distance : Nat) (range : Range) :
    (range.shift distance).1 = range.1 + distance :=
  rfl

@[simp] theorem shift_snd (distance : Nat) (range : Range) :
    (range.shift distance).2 = range.2 + distance :=
  rfl

end Range

/-- What separates segments and what ends them. -/
structure Segmenter (α : Type*) where
  isSpace : α → Bool
  isDelim : α → Bool
  delim_not_space : ∀ c, isDelim c = true → isSpace c = false

namespace Segmenter

variable {α : Type*} (seg : Segmenter α)

/-- Where the current segment starts, and whether it still may skip spaces. -/
structure Cursor where
  start : Nat
  position : Nat
  skipping : Bool
  deriving Repr, DecidableEq

namespace Cursor

/-- The cursor between two segments. -/
def fresh (position : Nat) : Cursor :=
  ⟨position, position, true⟩

/-- Move the origin of a cursor. -/
def shift (distance : Nat) (cursor : Cursor) : Cursor :=
  ⟨cursor.start + distance, cursor.position + distance, cursor.skipping⟩

@[simp] theorem shift_fresh (distance position : Nat) :
    (fresh position).shift distance = fresh (position + distance) :=
  rfl

end Cursor

/-- Consume one element; a delimiter closes the current segment. -/
def step (cursor : Cursor) (c : α) : Option Range × Cursor :=
  if (cursor.skipping && seg.isSpace c) = true then
    (none, Cursor.fresh (cursor.position + 1))
  else if seg.isDelim c = true then
    (some (cursor.start, cursor.position + 1),
      Cursor.fresh (cursor.position + 1))
  else
    (none, ⟨cursor.start, cursor.position + 1, false⟩)

/-- The segments closed by a list, and the cursor after it. -/
def scan : Cursor → List α → List Range × Cursor
  | cursor, [] =>
      ([], cursor)
  | cursor, c :: rest =>
      let (closed, next) := seg.step cursor c
      let (later, final) := scan next rest
      (closed.toList ++ later, final)

/-- All ranges of a list: its closed segments and then the open tail. -/
def ranges (cursor : Cursor) (text : List α) : List Range :=
  (seg.scan cursor text).1 ++
    [((seg.scan cursor text).2.start,
      (seg.scan cursor text).2.position)]

@[simp] theorem scan_nil (cursor : Cursor) :
    seg.scan cursor [] = ([], cursor) :=
  rfl

theorem scan_cons (cursor : Cursor) (c : α) (rest : List α) :
    seg.scan cursor (c :: rest) =
      ((seg.step cursor c).1.toList ++
          (seg.scan (seg.step cursor c).2 rest).1,
        (seg.scan (seg.step cursor c).2 rest).2) :=
  rfl

/-- Scanning a concatenation scans the second half from where the first ends. -/
theorem scan_append (cursor : Cursor) (first second : List α) :
    seg.scan cursor (first ++ second) =
      ((seg.scan cursor first).1 ++
          (seg.scan (seg.scan cursor first).2 second).1,
        (seg.scan (seg.scan cursor first).2 second).2) := by
  induction first generalizing cursor with
  | nil =>
      simp
  | cons c rest inductionHypothesis =>
      simp [scan_cons, inductionHypothesis, List.append_assoc]

theorem ranges_append (cursor : Cursor) (first second : List α) :
    seg.ranges cursor (first ++ second) =
      (seg.scan cursor first).1 ++
        seg.ranges (seg.scan cursor first).2 second := by
  simp [ranges, scan_append, List.append_assoc]

theorem ranges_cons (cursor : Cursor) (c : α) (rest : List α) :
    seg.ranges cursor (c :: rest) =
      (seg.step cursor c).1.toList ++
        seg.ranges (seg.step cursor c).2 rest := by
  simp [ranges, scan_cons, List.append_assoc]

theorem step_shift (distance : Nat) (cursor : Cursor) (c : α) :
    seg.step (cursor.shift distance) c =
      ((seg.step cursor c).1.map (Range.shift distance),
        (seg.step cursor c).2.shift distance) := by
  by_cases skip : (cursor.skipping && seg.isSpace c) = true
  · simp [step, skip, Cursor.shift, Cursor.fresh, Nat.add_right_comm]
  · by_cases delim : seg.isDelim c = true
    · simp [step, skip, delim, Cursor.shift, Cursor.fresh, Range.shift,
        Nat.add_right_comm]
    · simp [step, skip, delim, Cursor.shift, Nat.add_right_comm]

/-- Moving the origin of the cursor moves every range by the same distance. -/
theorem scan_shift (distance : Nat) (cursor : Cursor) (text : List α) :
    seg.scan (cursor.shift distance) text =
      ((seg.scan cursor text).1.map (Range.shift distance),
        (seg.scan cursor text).2.shift distance) := by
  induction text generalizing cursor with
  | nil =>
      simp
  | cons c rest inductionHypothesis =>
      simp only [scan_cons, step_shift, inductionHypothesis,
        List.map_append]
      cases (seg.step cursor c).1 <;> simp

theorem ranges_shift (distance : Nat) (cursor : Cursor) (text : List α) :
    seg.ranges (cursor.shift distance) text =
      (seg.ranges cursor text).map (Range.shift distance) := by
  simp only [ranges, scan_shift, List.map_append, List.map_cons,
    List.map_nil]
  rfl

/-- Ranges after a fresh cursor depend on its position only by a shift. -/
theorem ranges_fresh (position : Nat) (text : List α) :
    seg.ranges (Cursor.fresh position) text =
      (seg.ranges (Cursor.fresh 0) text).map (Range.shift position) := by
  simpa using seg.ranges_shift position (Cursor.fresh 0) text

theorem step_position (cursor : Cursor) (c : α) :
    (seg.step cursor c).2.position = cursor.position + 1 := by
  unfold step
  split
  · rfl
  · split <;> rfl

theorem scan_position (cursor : Cursor) (text : List α) :
    (seg.scan cursor text).2.position = cursor.position + text.length := by
  induction text generalizing cursor with
  | nil =>
      simp
  | cons c rest inductionHypothesis =>
      rw [scan_cons]
      simp only [inductionHypothesis, step_position, List.length_cons]
      omega

/-- Exactly the delimiters close segments. -/
theorem length_scan (cursor : Cursor) (text : List α) :
    (seg.scan cursor text).1.length = text.countP seg.isDelim := by
  induction text generalizing cursor with
  | nil =>
      simp
  | cons c rest inductionHypothesis =>
      rw [scan_cons, List.countP_cons]
      simp only [List.length_append, inductionHypothesis]
      have closed :
          (seg.step cursor c).1.toList.length =
            if seg.isDelim c = true then 1 else 0 := by
        unfold step
        by_cases delim : seg.isDelim c = true
        · simp [delim, seg.delim_not_space c delim]
        · by_cases skip : (cursor.skipping && seg.isSpace c) = true
          · simp [skip, delim]
          · simp [skip, delim]
      omega

@[simp] theorem length_ranges (cursor : Cursor) (text : List α) :
    (seg.ranges cursor text).length = text.countP seg.isDelim + 1 := by
  simp [ranges, length_scan]

/-- A text that ends with a delimiter leaves the cursor between segments. -/
theorem scan_end_delim
    (cursor : Cursor)
    (front : List α)
    {last : α}
    (delim : seg.isDelim last = true) :
    (seg.scan cursor (front ++ [last])).2 =
      Cursor.fresh (cursor.position + front.length + 1) := by
  rw [scan_append, scan_cons]
  simp [step, delim, seg.delim_not_space last delim, scan_position]

/-- While spaces are skipped the cursor stays between segments. -/
theorem scan_spaces
    (position : Nat)
    {text : List α}
    (spaces : ∀ c ∈ text, seg.isSpace c = true) :
    seg.scan (Cursor.fresh position) text =
      ([], Cursor.fresh (position + text.length)) := by
  induction text generalizing position with
  | nil =>
      simp
  | cons c rest inductionHypothesis =>
      have space : seg.isSpace c = true := spaces c (by simp)
      have restSpaces : ∀ d ∈ rest, seg.isSpace d = true :=
        fun d member => spaces d (by simp [member])
      have reached :
          position + 1 + rest.length = position + (c :: rest).length := by
        rw [List.length_cons]
        omega
      have skipped :
          seg.step (Cursor.fresh position) c =
            (none, Cursor.fresh (position + 1)) := by
        simp [step, Cursor.fresh, space]
      rw [scan_cons, skipped]
      simp only [inductionHypothesis (position + 1) restSpaces, reached]
      rfl

/-- Once a segment has begun, spaces are ordinary content. -/
theorem scan_begun_eq
    {start position : Nat}
    {text : List α}
    (noSpaceHead : ∀ c ∈ text.head?, seg.isSpace c = false)
    (nonempty : text ≠ []) :
    seg.scan ⟨start, position, true⟩ text =
      seg.scan ⟨start, position, false⟩ text := by
  cases text with
  | nil =>
      exact absurd rfl nonempty
  | cons c rest =>
      have notSpace : seg.isSpace c = false := noSpaceHead c (by simp)
      rw [scan_cons, scan_cons]
      simp [step, notSpace]

/-- A begun segment keeps its start until a delimiter is met. -/
theorem scan_begun_no_delim
    {start position : Nat}
    {text : List α}
    (noDelim : text.countP seg.isDelim = 0) :
    seg.scan ⟨start, position, false⟩ text =
      ([], ⟨start, position + text.length, false⟩) := by
  induction text generalizing position with
  | nil =>
      simp
  | cons c rest inductionHypothesis =>
      have notDelim : seg.isDelim c = false := by
        cases delim : seg.isDelim c with
        | false =>
            rfl
        | true =>
            simp [delim] at noDelim
      have restNone : rest.countP seg.isDelim = 0 := by
        simpa [notDelim] using noDelim
      rw [scan_cons]
      simp only [step, notDelim, Bool.false_and, Bool.false_eq_true,
        ↓reduceIte, Option.toList_none, List.nil_append]
      rw [inductionHypothesis restNone, List.length_cons]
      simp only [Prod.mk.injEq, Cursor.mk.injEq, true_and, and_true]
      omega

/-- One delimiter at the end of a segment's text closes exactly that segment. -/
theorem scan_segment
    {position : Nat}
    {front : List α}
    {last : α}
    (noDelim : front.countP seg.isDelim = 0)
    (delim : seg.isDelim last = true)
    (noSpaceHead :
      ∀ c ∈ (front ++ [last]).head?, seg.isSpace c = false) :
    seg.scan (Cursor.fresh position) (front ++ [last]) =
      ([(position, position + front.length + 1)],
        Cursor.fresh (position + front.length + 1)) := by
  have begun :
      seg.scan (Cursor.fresh position) (front ++ [last]) =
        seg.scan ⟨position, position, false⟩ (front ++ [last]) :=
    seg.scan_begun_eq noSpaceHead (by simp)
  rw [begun, scan_append, scan_begun_no_delim seg noDelim, scan_cons]
  simp [step, delim]

/-- The first range of a begun segment starts there. -/
theorem ranges_begun (start position : Nat) (text : List α) :
    ∃ stop later,
      seg.ranges ⟨start, position, false⟩ text = (start, stop) :: later ∧
        position ≤ stop := by
  induction text generalizing position with
  | nil =>
      exact ⟨position, [], rfl, Nat.le_refl _⟩
  | cons c rest inductionHypothesis =>
      rw [ranges_cons]
      by_cases delim : seg.isDelim c = true
      · refine ⟨position + 1,
          seg.ranges (Cursor.fresh (position + 1)) rest, ?_, by omega⟩
        simp [step, delim]
      · obtain ⟨stop, later, same, bound⟩ := inductionHypothesis (position + 1)
        refine ⟨stop, later, ?_, by omega⟩
        simpa [step, delim] using same

theorem step_start_le
    {cursor : Cursor}
    (begun : cursor.start ≤ cursor.position)
    (c : α) :
    (seg.step cursor c).2.start ≤ (seg.step cursor c).2.position := by
  unfold step
  split
  · exact Nat.le_refl _
  · split
    · exact Nat.le_refl _
    · exact Nat.le_succ_of_le begun

/-- Whatever is no space lies in a range. -/
theorem exists_range_of_solid
    {cursor : Cursor}
    (begun : cursor.start ≤ cursor.position)
    {text : List α}
    {offset : Nat}
    {c : α}
    (here : text[offset]? = some c)
    (solid : seg.isSpace c = false) :
    ∃ range ∈ seg.ranges cursor text,
      range.1 ≤ cursor.position + offset ∧
        cursor.position + offset < range.2 := by
  induction text generalizing cursor offset with
  | nil =>
      simp at here
  | cons first rest inductionHypothesis =>
      rw [ranges_cons]
      cases offset with
      | zero =>
          obtain rfl : first = c := by simpa using here
          by_cases delim : seg.isDelim first = true
          · exact ⟨(cursor.start, cursor.position + 1),
              by simp [step, solid, delim], begun, by simp⟩
          · obtain ⟨stop, later, same, bound⟩ :=
              seg.ranges_begun cursor.start (cursor.position + 1) rest
            exact ⟨(cursor.start, stop), by simp [step, solid, delim, same],
              begun, bound⟩
      | succ offset =>
          obtain ⟨range, member, low, high⟩ :=
            inductionHypothesis (seg.step_start_le begun first)
              (by simpa using here)
          rw [step_position] at low high
          exact ⟨range, List.mem_append_right _ member, by omega, by omega⟩

/-- Between two segments, the last that is no space is a delimiter. -/
theorem delim_of_skipping
    {cursor : Cursor}
    {text : List α}
    (between : (seg.scan cursor text).2.skipping = true)
    {c : α}
    (last : (text.filter fun d => !seg.isSpace d).getLast? = some c) :
    seg.isDelim c = true := by
  induction text using List.reverseRecOn with
  | nil =>
      cases last
  | append_singleton front final inductionHypothesis =>
      rw [scan_append, scan_cons, scan_nil] at between
      rw [List.filter_append] at last
      cases spaced : seg.isSpace final with
      | true =>
          have skipped :
              (seg.scan cursor front).2.skipping = true := by
            by_contra begun
            have notDelim : seg.isDelim final ≠ true := by
              intro delim
              have solid := seg.delim_not_space final delim
              rw [spaced] at solid
              cases solid
            simp [step, begun, notDelim] at between
          apply inductionHypothesis skipped
          simpa [spaced] using last
      | false =>
          obtain rfl : final = c := by
            simpa [spaced] using last
          by_contra notDelim
          simp [step, spaced, notDelim] at between

/-- A complete segment: no leading space, one delimiter, and that at its end. -/
def Closed (body : List α) : Prop :=
  ∃ front last,
    body = front ++ [last] ∧
      front.countP seg.isDelim = 0 ∧
      seg.isDelim last = true

theorem Closed.countP_eq_one
    {seg : Segmenter α}
    {body : List α}
    (closed : seg.Closed body) :
    body.countP seg.isDelim = 1 := by
  obtain ⟨front, last, rfl, noDelim, delim⟩ := closed
  simp [noDelim, delim]

/--
Range number `index`, scanned from a fresh cursor at `origin`, is the part
`body` of the text between `before` and `after`.
-/
structure Located
    (origin : Nat)
    (text : List α)
    (index : Nat)
    (before body after : List α) : Prop where
  text_eq :
    text = before ++ body ++ after
  closed_before :
    (seg.scan (Cursor.fresh origin) before).1.length = index
  cursor_before :
    (seg.scan (Cursor.fresh origin) before).2 =
      Cursor.fresh (origin + before.length)
  no_space_head :
    ∀ c ∈ body.head?, seg.isSpace c = false
  shape :
    seg.Closed body ∨
      (after = [] ∧ body.countP seg.isDelim = 0)

/-- A nonempty list begins with its spaces and then a segment or the open tail. -/
theorem split_first (text : List α) :
    ∃ spaces body after,
      text = spaces ++ body ++ after ∧
        (∀ c ∈ spaces, seg.isSpace c = true) ∧
        (∀ c ∈ body.head?, seg.isSpace c = false) ∧
        (seg.Closed body ∨
          (after = [] ∧ body.countP seg.isDelim = 0)) := by
  have noSpaceHead :
      ∀ c ∈ (text.dropWhile seg.isSpace).head?,
        seg.isSpace c = false := by
    intro c member
    have stopped := List.head?_dropWhile_not seg.isSpace text
    rw [Option.mem_def.mp member] at stopped
    simpa using stopped
  have spaces : ∀ c ∈ text.takeWhile seg.isSpace, seg.isSpace c = true :=
    fun c member => List.mem_takeWhile_imp member
  have rejoined := List.takeWhile_append_dropWhile (p := seg.isSpace) (l := text)
  generalize text.takeWhile seg.isSpace = front at spaces rejoined
  generalize text.dropWhile seg.isSpace = rest at noSpaceHead rejoined
  have undelimited :
      (rest.takeWhile fun c => !seg.isDelim c).countP seg.isDelim = 0 := by
    rw [List.countP_eq_zero]
    intro c member
    have holds := List.mem_takeWhile_imp member
    simpa using holds
  have restJoined :=
    List.takeWhile_append_dropWhile (p := fun c => !seg.isDelim c) (l := rest)
  cases tail : rest.dropWhile (fun c => !seg.isDelim c) with
  | nil =>
      rw [tail, List.append_nil] at restJoined
      refine ⟨front, rest, [], by simp [rejoined], spaces, noSpaceHead,
        Or.inr ⟨rfl, ?_⟩⟩
      rw [← restJoined]
      exact undelimited
  | cons last after =>
      have delim : seg.isDelim last = true := by
        have stopped :=
          List.head?_dropWhile_not (fun c => !seg.isDelim c) rest
        rw [tail] at stopped
        simpa using stopped
      rw [tail] at restJoined
      generalize rest.takeWhile (fun c => !seg.isDelim c) = initial
        at undelimited restJoined
      refine ⟨front, initial ++ [last], after, ?_, spaces, ?_,
        Or.inl ⟨initial, last, rfl, undelimited, delim⟩⟩
      · simp [← rejoined, ← restJoined]
      · intro c member
        apply noSpaceHead c
        rw [← restJoined]
        cases initial with
        | nil =>
            simpa using member
        | cons first others =>
            simpa using member

theorem scan_closed
    {position : Nat}
    {body : List α}
    (closed : seg.Closed body)
    (noSpaceHead : ∀ c ∈ body.head?, seg.isSpace c = false) :
    seg.scan (Cursor.fresh position) body =
      ([(position, position + body.length)],
        Cursor.fresh (position + body.length)) := by
  obtain ⟨front, last, rfl, noDelim, delim⟩ := closed
  rw [seg.scan_segment noDelim delim noSpaceHead]
  simp [Nat.add_assoc]

theorem scan_open_tail
    {position : Nat}
    {body : List α}
    (noDelim : body.countP seg.isDelim = 0)
    (noSpaceHead : ∀ c ∈ body.head?, seg.isSpace c = false) :
    seg.ranges (Cursor.fresh position) body =
      [(position, position + body.length)] := by
  cases body with
  | nil =>
      rfl
  | cons c rest =>
      have begun :
          seg.scan (Cursor.fresh position) (c :: rest) =
            seg.scan ⟨position, position, false⟩ (c :: rest) :=
        seg.scan_begun_eq noSpaceHead (by simp)
      simp [ranges, begun, scan_begun_no_delim seg noDelim]

namespace Located

variable
  {seg}
  {origin index : Nat}
  {text before body after : List α}

/-- The ranges of a text in which a complete segment has been located. -/
theorem ranges_closed
    (located : seg.Located origin text index before body after)
    (closed : seg.Closed body) :
    seg.ranges (Cursor.fresh origin) text =
      (seg.scan (Cursor.fresh origin) before).1 ++
        (origin + before.length, origin + before.length + body.length) ::
          seg.ranges
            (Cursor.fresh (origin + before.length + body.length)) after := by
  rw [located.text_eq, List.append_assoc, ranges_append,
    located.cursor_before, ranges_append,
    seg.scan_closed closed located.no_space_head]
  rfl

/-- The ranges of a text whose open tail has been located. -/
theorem ranges_open
    (located : seg.Located origin text index before body [])
    (noDelim : body.countP seg.isDelim = 0) :
    seg.ranges (Cursor.fresh origin) text =
      (seg.scan (Cursor.fresh origin) before).1 ++
        [(origin + before.length, origin + before.length + body.length)] := by
  rw [located.text_eq, List.append_nil, ranges_append,
    located.cursor_before,
    seg.scan_open_tail noDelim located.no_space_head]

/-- A located range is the listed one. -/
theorem getElem?_ranges
    (located : seg.Located origin text index before body after) :
    (seg.ranges (Cursor.fresh origin) text)[index]? =
      some (origin + before.length,
        origin + before.length + body.length) := by
  rcases located.shape with closed | ⟨rfl, noDelim⟩
  · rw [located.ranges_closed closed, ← located.closed_before]
    simp
  · rw [located.ranges_open noDelim, ← located.closed_before]
    simp

end Located

/-- Every listed range can be located. -/
theorem exists_located
    (origin : Nat)
    (text : List α)
    {index : Nat}
    {range : Range}
    (listed :
      (seg.ranges (Cursor.fresh origin) text)[index]? = some range) :
    ∃ before body after,
      seg.Located origin text index before body after := by
  induction index generalizing origin text with
  | zero =>
      obtain ⟨spaces, body, after, textShape, areSpaces, noSpaceHead, shape⟩ :=
        seg.split_first text
      have scanned := seg.scan_spaces origin areSpaces
      exact ⟨spaces, body, after, textShape, by simp [scanned],
        by simp [scanned], noSpaceHead, shape⟩
  | succ index inductionHypothesis =>
      obtain ⟨spaces, first, rest, textShape, areSpaces, noSpaceHead, shape⟩ :=
        seg.split_first text
      have scanned := seg.scan_spaces origin areSpaces
      have firstLocated :
          seg.Located origin text 0 spaces first rest :=
        ⟨textShape, by simp [scanned], by simp [scanned], noSpaceHead, shape⟩
      rcases shape with closed | ⟨rfl, noDelim⟩
      · rw [firstLocated.ranges_closed closed, scanned] at listed
        obtain ⟨before, body, after, located⟩ :=
          inductionHypothesis _ rest (by simpa using listed)
        have closedScan :
            seg.scan (Cursor.fresh origin) (spaces ++ first ++ before) =
              ((origin + spaces.length,
                  origin + spaces.length + first.length) ::
                (seg.scan (Cursor.fresh
                  (origin + spaces.length + first.length)) before).1,
                (seg.scan (Cursor.fresh
                  (origin + spaces.length + first.length)) before).2) := by
          rw [scan_append, scan_append, scanned]
          simp [seg.scan_closed closed noSpaceHead]
        refine ⟨spaces ++ first ++ before, body, after, ?_, ?_, ?_,
          located.no_space_head, located.shape⟩
        · rw [textShape, located.text_eq]
          simp [List.append_assoc]
        · rw [closedScan]
          simp [located.closed_before]
        · rw [closedScan]
          simp only [located.cursor_before, List.length_append]
          congr 1
          omega
      · rw [firstLocated.ranges_open noDelim, scanned] at listed
        simp at listed

namespace Located

variable
  {seg}
  {index : Nat}
  {text before body after : List α}

/-- Ranges listed before a located one depend only on the text before it. -/
theorem getElem?_of_lt
    (located : seg.Located 0 text index before body after)
    (replacement rest : List α)
    {other : Nat}
    (earlier : other < index) :
    (seg.ranges (Cursor.fresh 0) (before ++ replacement ++ rest))[other]? =
      (seg.ranges (Cursor.fresh 0) text)[other]? := by
  have inClosed :
      other < (seg.scan (Cursor.fresh 0) before).1.length := by
    rw [located.closed_before]
    exact earlier
  rw [located.text_eq]
  simp only [List.append_assoc]
  rw [seg.ranges_append _ before (replacement ++ rest),
    seg.ranges_append _ before (body ++ after),
    List.getElem?_append_left inClosed,
    List.getElem?_append_left inClosed]

/-- A range listed before another one is a complete segment. -/
theorem exists_closed_of_lt
    (located : seg.Located 0 text index before body after)
    {other : Nat}
    {range : Range}
    (earlier : other < index)
    (listed : (seg.ranges (Cursor.fresh 0) text)[other]? = some range) :
    ∃ front segment rest,
      seg.Located 0 text other front segment rest ∧
        seg.Closed segment ∧
        range = (front.length, front.length + segment.length) := by
  obtain ⟨front, segment, rest, otherLocated⟩ :=
    seg.exists_located 0 text listed
  have same := otherLocated.getElem?_ranges
  rw [listed, Option.some.injEq] at same
  refine ⟨front, segment, rest, otherLocated, ?_, by simpa using same⟩
  rcases otherLocated.shape with closed | ⟨rfl, noDelim⟩
  · exact closed
  · -- the open tail is the last range, so nothing is located after it
    have listedHere := located.getElem?_ranges
    rw [otherLocated.ranges_open noDelim] at listedHere
    obtain ⟨bound, _⟩ := List.getElem?_eq_some_iff.mp listedHere
    rw [List.length_append, otherLocated.closed_before] at bound
    simp at bound
    omega

/-- An earlier range ends where the located one starts, or before. -/
theorem stop_le_of_lt
    (located : seg.Located 0 text index before body after)
    {other : Nat}
    {range : Range}
    (earlier : other < index)
    (listed : (seg.ranges (Cursor.fresh 0) text)[other]? = some range) :
    range.2 ≤ before.length ∧ range.1 < range.2 := by
  obtain ⟨front, segment, rest, otherLocated, closed, rfl⟩ :=
    located.exists_closed_of_lt earlier listed
  have nonempty : 0 < segment.length := by
    obtain ⟨initial, last, rfl, _⟩ := closed
    simp
  have listedHere := located.getElem?_ranges
  rw [otherLocated.ranges_closed closed,
    List.getElem?_append_right
      (by rw [otherLocated.closed_before]; omega),
    otherLocated.closed_before] at listedHere
  obtain ⟨distance, gap⟩ : ∃ distance, index - other = distance + 1 :=
    ⟨index - other - 1, by omega⟩
  rw [gap, List.getElem?_cons_succ, ranges_fresh, List.getElem?_map,
    Option.map_eq_some_iff] at listedHere
  obtain ⟨inner, _, moved⟩ := listedHere
  have start := congrArg Prod.fst moved
  simp only [Range.shift, Nat.zero_add] at start
  omega

/--
Replacing a located complete segment by a text that ends with a delimiter
moves every later range by the difference of the lengths, and its number by
the difference of the delimiter counts.
-/
theorem getElem?_of_gt
    (located : seg.Located 0 text index before body after)
    {replacement : List α}
    (endsWithDelim :
      ∃ front last,
        replacement = front ++ [last] ∧ seg.isDelim last = true)
    {other : Nat}
    {range : Range}
    (later : index < other)
    (listed : (seg.ranges (Cursor.fresh 0) text)[other]? = some range) :
    before.length + body.length ≤ range.1 ∧
      (seg.ranges (Cursor.fresh 0)
          (before ++ replacement ++ after))[other +
            replacement.countP seg.isDelim - 1]? =
        some (range.1 - body.length + replacement.length,
          range.2 - body.length + replacement.length) := by
  have closed : seg.Closed body := by
    rcases located.shape with closed | ⟨rfl, noDelim⟩
    · exact closed
    · have bound := (List.getElem?_eq_some_iff.mp listed).1
      rw [located.ranges_open noDelim, List.length_append,
        located.closed_before] at bound
      simp at bound
      omega
  obtain ⟨distance, otherEq⟩ : ∃ distance, other = index + 1 + distance :=
    ⟨other - index - 1, by omega⟩
  have inAfter :
      (seg.ranges
        (Cursor.fresh (before.length + body.length)) after)[distance]? =
        some range := by
    rw [located.ranges_closed closed,
      List.getElem?_append_right
        (by rw [located.closed_before]; omega),
      located.closed_before, otherEq] at listed
    have number : index + 1 + distance - index = distance + 1 := by omega
    rw [number, List.getElem?_cons_succ] at listed
    simpa using listed
  rw [ranges_fresh, List.getElem?_map, Option.map_eq_some_iff] at inAfter
  obtain ⟨inner, innerListed, rfl⟩ := inAfter
  obtain ⟨front, last, rfl, delim⟩ := endsWithDelim
  have positive : 0 < (front ++ [last]).countP seg.isDelim := by
    simp [delim]
  have closedCount :
      (seg.scan (Cursor.fresh before.length) (front ++ [last])).1.length =
        (front ++ [last]).countP seg.isDelim :=
    seg.length_scan _ _
  have number :
      other + (front ++ [last]).countP seg.isDelim - 1 =
        index + ((front ++ [last]).countP seg.isDelim + distance) := by
    omega
  have cursorBefore := located.cursor_before
  rw [Nat.zero_add] at cursorBefore
  refine ⟨by simp only [Range.shift]; omega, ?_⟩
  rw [number, List.append_assoc, ranges_append, cursorBefore,
    List.getElem?_append_right (by rw [located.closed_before]; omega),
    located.closed_before, Nat.add_sub_cancel_left, ranges_append,
    List.getElem?_append_right (by rw [closedCount]; omega),
    closedCount, Nat.add_sub_cancel_left,
    seg.scan_end_delim _ front delim, ranges_fresh,
    List.getElem?_map, innerListed]
  simp only [Option.map_some, Option.some.injEq, Range.shift, Cursor.fresh,
    Prod.mk.injEq, List.length_append, List.length_cons, List.length_nil]
  omega

end Located

end Segmenter

end DistributedDocs
