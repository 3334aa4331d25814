import Mathlib.Algebra.Ring.Nat
import Mathlib.Data.List.Basic

namespace DistributedDocs

/-!
# Text with delimiters

Parts joined by a separator that none of them contains are recovered by
splitting, and the room the parts take, a separator behind each of them, is
preserved by joining and by splitting.
-/

section DelimitedText

variable
  {α : Type}
  [DecidableEq α]

/-- Splitting recovers joined parts that do not contain the separator. -/
theorem splitOnP_intercalate
    (separator : α)
    {parts : List (List α)}
    (nonempty : parts ≠ [])
    (free : ∀ part ∈ parts, separator ∉ part) :
    (List.intercalate [separator] parts).splitOnP (fun c => c = separator) =
      parts := by
  have byEquality :
      (fun c => decide (c = separator)) = (· == separator) := by
    funext c
    rw [beq_eq_decide]
  rw [byEquality, ← List.splitOn_eq_splitOnP]
  exact List.splitOn_intercalate separator free nonempty

omit [DecidableEq α] in
/-- A part of a text consists of its characters, and of no separator. -/
theorem of_mem_splitOnP
    {separates : α → Bool}
    {text part : List α}
    (listed : part ∈ text.splitOnP separates)
    {c : α}
    (member : c ∈ part) :
    c ∈ text ∧ separates c = false := by
  induction text generalizing part with
  | nil =>
      rw [List.splitOnP_nil, List.mem_singleton] at listed
      rw [listed] at member
      cases member
  | cons d rest inductionHypothesis =>
      have later :
          ∀ {other : List α}, other ∈ rest.splitOnP separates → c ∈ other →
            c ∈ d :: rest ∧ separates c = false := by
        intro other inRest inOther
        obtain ⟨found, kept⟩ := inductionHypothesis inRest inOther
        exact ⟨List.mem_cons_of_mem d found, kept⟩
      rw [List.splitOnP_cons_eq_if_modifyHead] at listed
      split at listed
      · rcases List.mem_cons.mp listed with rfl | inRest
        · cases member
        · exact later inRest member
      · next kept =>
        obtain ⟨first, others, parts⟩ :=
          List.exists_cons_of_ne_nil (List.splitOnP_ne_nil separates rest)
        rw [parts, List.modifyHead_cons] at listed
        rcases List.mem_cons.mp listed with rfl | inOthers
        · rcases List.mem_cons.mp member with rfl | inFirst
          · exact ⟨List.mem_cons_self, by simpa using kept⟩
          · exact later (parts ▸ List.mem_cons_self) inFirst
        · exact later (parts ▸ List.mem_cons_of_mem first inOthers) member

/-- A part that is empty begins or ends the text or lies between separators. -/
theorem ends_of_nil_mem_splitOnP
    {separator : α}
    (text : List α) :
    ([] ∈ text.splitOnP (fun c => c = separator) →
        text = [] ∨ text.head? = some separator ∨
          text.getLast? = some separator ∨
          [separator, separator] <:+: text) ∧
      ([] ∈ (text.splitOnP fun c => c = separator).tail →
        text.getLast? = some separator ∨
          [separator, separator] <:+: text) := by
  induction text with
  | nil =>
      exact ⟨fun _ => .inl rfl, nofun⟩
  | cons c rest inductionHypothesis =>
      obtain ⟨ends, endsBehind⟩ := inductionHypothesis
      have lastKept :
          rest.getLast? = some separator →
            (c :: rest).getLast? = some separator := by
        intro last
        rw [List.getLast?_cons, last]
        rfl
      have infixKept :
          [separator, separator] <:+: rest →
            [separator, separator] <:+: c :: rest :=
        fun inside => inside.trans (List.suffix_cons c rest).isInfix
      rw [List.splitOnP_cons_eq_if_modifyHead]
      by_cases separates : c = separator
      · subst separates
        rw [if_pos (decide_eq_true rfl)]
        refine ⟨fun _ => .inr (.inl rfl), ?_⟩
        intro listed
        rcases ends listed with rfl | begins | ended | inside
        · exact .inl rfl
        · obtain ⟨others, rfl⟩ := List.head?_eq_some_iff.mp begins
          exact .inr ⟨[], others, rfl⟩
        · exact .inl (lastKept ended)
        · exact .inr (infixKept inside)
      · rw [if_neg (by simpa using separates)]
        obtain ⟨first, others, parts⟩ :=
          List.exists_cons_of_ne_nil
            (List.splitOnP_ne_nil (fun d => decide (d = separator)) rest)
        rw [parts] at endsBehind ⊢
        have behind :
            [] ∈ others →
              (c :: rest).getLast? = some separator ∨
                [separator, separator] <:+: c :: rest :=
          fun listed => (endsBehind listed).imp lastKept infixKept
        refine ⟨?_, behind⟩
        intro listed
        rcases List.mem_cons.mp listed with isHead | inOthers
        · cases isHead
        · exact .inr (.inr (behind inOthers))

theorem nil_mem_splitOnP_iff
    {separator : α}
    {text : List α} :
    [] ∈ text.splitOnP (fun c => c = separator) ↔
      text = [] ∨ text.head? = some separator ∨
        text.getLast? = some separator ∨
        [separator, separator] <:+: text := by
  constructor
  · exact (ends_of_nil_mem_splitOnP text).1
  · have separates : decide (separator = separator) = true :=
      decide_eq_true rfl
    rintro (rfl | begins | ended | ⟨front, back, rfl⟩)
    · exact List.mem_singleton.mpr rfl
    · obtain ⟨others, rfl⟩ := List.head?_eq_some_iff.mp begins
      rw [List.splitOnP_cons_eq_if_modifyHead, if_pos separates]
      exact List.mem_cons_self
    · obtain ⟨front, rfl⟩ := List.getLast?_eq_some_iff.mp ended
      rw [List.splitOnP_append_cons front [] separates]
      exact List.mem_append_right _ (List.mem_singleton.mpr rfl)
    · rw [List.append_assoc, List.cons_append,
        List.splitOnP_append_cons front _ separates]
      apply List.mem_append_right
      rw [List.singleton_append, List.splitOnP_cons_eq_if_modifyHead,
        if_pos separates]
      exact List.mem_cons_self

omit [DecidableEq α] in
/-- Every character of a joined text comes from a part or is the separator. -/
theorem mem_intercalate
    {separator c : α}
    {parts : List (List α)}
    (member : c ∈ List.intercalate [separator] parts) :
    c = separator ∨ ∃ part ∈ parts, c ∈ part := by
  induction parts with
  | nil =>
      simp at member
  | cons part rest inductionHypothesis =>
      cases rest with
      | nil =>
          rw [List.intercalate_singleton] at member
          exact Or.inr ⟨part, List.mem_cons_self, member⟩
      | cons next later =>
          rw [List.intercalate_cons_cons, List.append_assoc] at member
          rcases List.mem_append.mp member with inPart | behind
          · exact Or.inr ⟨part, List.mem_cons_self, inPart⟩
          · rcases List.mem_cons.mp behind with isSeparator | inRest
            · exact Or.inl isSeparator
            · rcases inductionHypothesis inRest with isSeparator | found
              · exact Or.inl isSeparator
              · obtain ⟨other, listed, inOther⟩ := found
                exact
                  Or.inr ⟨other, List.mem_cons_of_mem part listed, inOther⟩

/-- The room parts take, a separator behind each of them. -/
def roomFor (parts : List (List α)) : Nat :=
  (parts.map fun part => part.length + 1).sum

omit [DecidableEq α]

@[simp] theorem roomFor_nil : roomFor ([] : List (List α)) = 0 :=
  rfl

@[simp] theorem roomFor_cons (part : List α) (parts : List (List α)) :
    roomFor (part :: parts) = part.length + 1 + roomFor parts := by
  rw [roomFor, List.map_cons, List.sum_cons]
  rfl

@[simp] theorem roomFor_append (first second : List (List α)) :
    roomFor (first ++ second) = roomFor first + roomFor second := by
  rw [roomFor, List.map_append, List.sum_append]
  rfl

theorem roomFor_sublist
    {first second : List (List α)}
    (sublist : first.Sublist second) :
    roomFor first ≤ roomFor second := by
  induction sublist with
  | slnil =>
      exact Nat.le_refl _
  | cons part _ inductionHypothesis =>
      rw [roomFor_cons]
      omega
  | cons_cons part _ inductionHypothesis =>
      rw [roomFor_cons, roomFor_cons]
      omega

theorem roomFor_perm
    {first second : List (List α)}
    (perm : first.Perm second) :
    roomFor first = roomFor second :=
  (perm.map fun part : List α => part.length + 1).sum_nat

theorem roomFor_le
    {parts : List (List α)}
    {bound : Nat}
    (short : ∀ part ∈ parts, part.length < bound) :
    roomFor parts ≤ parts.length * bound := by
  induction parts with
  | nil =>
      exact Nat.zero_le _
  | cons part rest inductionHypothesis =>
      have head : part.length + 1 ≤ bound := short part List.mem_cons_self
      have tail :=
        inductionHypothesis fun other listed =>
          short other (List.mem_cons_of_mem part listed)
      calc
        roomFor (part :: rest) = part.length + 1 + roomFor rest :=
          roomFor_cons part rest
        _ ≤ bound + rest.length * bound := Nat.add_le_add head tail
        _ = (part :: rest).length * bound := by
          rw [List.length_cons, Nat.succ_mul, Nat.add_comm]

/-- More text in the last part is more text at the end. -/
theorem intercalate_append_last
    (separator : α)
    (front : List (List α))
    (last more : List α) :
    List.intercalate [separator] (front ++ [last ++ more]) =
      List.intercalate [separator] (front ++ [last]) ++ more := by
  induction front with
  | nil =>
      simp
  | cons part rest inductionHypothesis =>
      have nonempty : ∀ tail : List α, rest ++ [tail] ≠ [] := by simp
      rw [List.cons_append, List.cons_append,
        List.intercalate_cons_of_ne_nil (nonempty _),
        List.intercalate_cons_of_ne_nil (nonempty _), inductionHypothesis,
        ← List.append_assoc]

/-- Joining parts uses all of their room but that of the last separator. -/
theorem length_intercalate_add_one
    (separator : α)
    {parts : List (List α)}
    (nonempty : parts ≠ []) :
    (List.intercalate [separator] parts).length + 1 = roomFor parts := by
  induction parts with
  | nil =>
      exact absurd rfl nonempty
  | cons part rest inductionHypothesis =>
      cases rest with
      | nil =>
          rw [List.intercalate_singleton, roomFor_cons, roomFor_nil]
      | cons next later =>
          have recursive := inductionHypothesis (List.cons_ne_nil next later)
          rw [List.intercalate_cons_cons, List.length_append,
            List.length_append, roomFor_cons, ← recursive, List.length_cons,
            List.length_nil]
          omega

/-- The parts of a text take one character more than the text. -/
theorem roomFor_splitOnP (separates : α → Bool) (text : List α) :
    roomFor (text.splitOnP separates) = text.length + 1 := by
  induction text with
  | nil =>
      rfl
  | cons c rest inductionHypothesis =>
      rw [List.splitOnP_cons_eq_if_modifyHead]
      split
      · rw [roomFor_cons, inductionHypothesis, List.length_cons,
          List.length_nil]
        omega
      · obtain ⟨first, others, parts⟩ :=
          List.exists_cons_of_ne_nil (List.splitOnP_ne_nil separates rest)
        rw [parts] at inductionHypothesis ⊢
        simp only [List.modifyHead_cons, roomFor_cons, List.length_cons]
          at inductionHypothesis ⊢
        omega

end DelimitedText

end DistributedDocs
