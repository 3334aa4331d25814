import DistributedDocs.DelimitedText
import DistributedDocs.Numerals
import Mathlib.Data.List.TakeWhile

namespace DistributedDocs

/-!
# The wire protocol

`protocol.c`: a message is its fields with `|` between them and a line end
behind them.  Nothing is escaped, so a field arrives as it was sent only if it
contains neither.
-/

/-- `MAX_MESSAGE_SIZE` -/
def maxMessageSize : Nat :=
  65536

/-- `MAX_FIELDS` -/
def maxFields : Nat :=
  32

/-- `PROTOCOL_DELIMITER` -/
def protocolDelimiter : CChar :=
  CChar.ofChar '|'

/-- A field holds no delimiter and no line end. -/
def PlainField (field : CString) : Prop :=
  protocolDelimiter ∉ field ∧ newline ∉ field

instance (field : CString) : Decidable (PlainField field) :=
  inferInstanceAs (Decidable (_ ∧ _))

theorem plainField_decimal (n : Int) : PlainField (decimal n) :=
  ⟨not_mem_decimal (by decide) n, not_mem_decimal (by decide) n⟩

/-- `protocol_build_message` -/
def protocolBuildMessage (fields : List CString) : CString :=
  List.intercalate [protocolDelimiter] fields ++ [newline]

/--
`protocol_receive_message` on what the peer sends before it closes the
connection: the message and what is left, or none where it returns NULL.
-/
def protocolReceiveMessage (stream : CString) :
    Option (CString × CString) :=
  let line := stream.takeWhile (· ≠ newline)
  if line.length < maxMessageSize - 1 then
    match stream.drop line.length with
    | terminator :: rest => some (line ++ [terminator], rest)
    | [] => if line = [] then none else some (line, [])
  else
    none

/-- The fields of a message without its line end. -/
def fieldsOf (text : CString) : List CString :=
  (text.splitOnP fun c => c = protocolDelimiter).take maxFields

/-- A text without the line end it may end with. -/
def stripNewline (text : CString) : CString :=
  if text.getLast? = some newline then text.dropLast else text

/-- A line that `fgets` gave holds no line end once it is stripped. -/
theorem newline_not_mem_stripNewline
    {text : CString}
    (oneLine : newline ∉ text.dropLast) :
    newline ∉ stripNewline text := by
  rcases List.eq_nil_or_concat text with rfl | ⟨front, last, rfl⟩
  · decide
  · rw [List.concat_eq_append, List.dropLast_concat] at oneLine
    rw [List.concat_eq_append, stripNewline, List.getLast?_concat]
    split
    · rwa [List.dropLast_concat]
    · next other =>
      rw [List.mem_append, List.mem_singleton, not_or]
      exact ⟨oneLine, fun same => other (congrArg some same.symm)⟩

theorem stripNewline_sublist (text : CString) :
    (stripNewline text).Sublist text := by
  unfold stripNewline
  split
  · exact List.dropLast_sublist text
  · exact List.Sublist.refl text

/-- `protocol_parse_message` -/
def protocolParseMessage (raw : CString) : List CString :=
  fieldsOf (stripNewline (raw.take (maxMessageSize - 1)))

/-- The parsed messages of at most `count` calls, up to the first NULL. -/
def messagesWithin : Nat → CString → List (List CString)
  | 0, _ =>
      []
  | count + 1, stream =>
      match protocolReceiveMessage stream with
      | none => []
      | some (raw, rest) =>
          protocolParseMessage raw :: messagesWithin count rest

/-- The messages a receiver gets before a call returns NULL. -/
def receivedMessages (stream : CString) : List (List CString) :=
  messagesWithin stream.length stream

/-! ## Lines -/

/-- A line is too long to be received. -/
def TooLong (line : CString) : Prop :=
  maxMessageSize - 1 ≤ line.length

instance (line : CString) : Decidable (TooLong line) :=
  inferInstanceAs (Decidable (_ ≤ _))

section Lines

variable
  {line : CString}
  (oneLine : newline ∉ line)

include oneLine

theorem takeWhile_line (rest : CString) :
    (line ++ newline :: rest).takeWhile (· ≠ newline) = line := by
  have kept : ∀ c ∈ line, decide (c ≠ newline) = true := by
    intro c member
    rw [decide_eq_true_eq]
    rintro rfl
    exact oneLine member
  rw [List.takeWhile_append_of_pos kept, List.takeWhile_cons]
  simp

theorem protocolReceiveMessage_line (rest : CString) :
    protocolReceiveMessage (line ++ newline :: rest) =
      if TooLong line then none else some (line ++ [newline], rest) := by
  simp only [protocolReceiveMessage, takeWhile_line oneLine, List.drop_left]
  by_cases long : TooLong line
  · rw [if_pos long, if_neg (Nat.not_lt.mpr long)]
  · rw [if_neg long, if_pos (Nat.not_le.mp long)]

/-- What the peer sends last need not have a line end. -/
theorem protocolReceiveMessage_unended :
    protocolReceiveMessage line =
      if TooLong line ∨ line = [] then none else some (line, []) := by
  have allTaken : line.takeWhile (· ≠ newline) = line := by
    rw [List.takeWhile_eq_self_iff]
    intro c member
    rw [decide_eq_true_eq]
    rintro rfl
    exact oneLine member
  simp only [protocolReceiveMessage, allTaken, List.drop_length]
  by_cases long : TooLong line
  · rw [if_neg (Nat.not_lt.mpr long), if_pos (Or.inl long)]
  · simp only [long, false_or, if_pos (Nat.not_le.mp long)]

/-- Nothing is received once the buffer is full. -/
theorem protocolReceiveMessage_full
    (long : TooLong line)
    (rest : CString) :
    protocolReceiveMessage (line ++ rest) = none := by
  have allTaken : ∀ c ∈ line, decide (c ≠ newline) = true := by
    intro c member
    rw [decide_eq_true_eq]
    rintro rfl
    exact oneLine member
  have tooFew :
      ¬((line ++ rest).takeWhile (· ≠ newline)).length <
        maxMessageSize - 1 := by
    rw [List.takeWhile_append_of_pos allTaken, List.length_append]
    exact Nat.not_lt.mpr (Nat.le_add_right_of_le long)
  simp only [protocolReceiveMessage, if_neg tooFew]

omit oneLine in
theorem protocolParseMessage_line (short : ¬TooLong line) :
    protocolParseMessage (line ++ [newline]) = fieldsOf line := by
  have fits : (line ++ [newline]).length ≤ maxMessageSize - 1 := by
    rw [TooLong] at short
    rw [List.length_append, List.length_singleton]
    omega
  rw [protocolParseMessage, List.take_of_length_le fits]
  simp [stripNewline]

end Lines

/-- Every message that is received shortens what is left. -/
theorem length_of_protocolReceiveMessage
    {stream raw rest : CString}
    (received : protocolReceiveMessage stream = some (raw, rest)) :
    rest.length < stream.length := by
  simp only [protocolReceiveMessage] at received
  split at received
  · split at received
    · next terminator later dropped =>
      obtain ⟨rfl, rfl⟩ := Prod.mk.inj (Option.some.inj received)
      have left := congrArg List.length dropped
      rw [List.length_drop, List.length_cons] at left
      omega
    · split at received
      · cases received
      · next nonempty =>
        obtain ⟨rfl, rfl⟩ := Prod.mk.inj (Option.some.inj received)
        rcases stream with _ | ⟨c, later⟩
        · exact absurd rfl nonempty
        · exact Nat.succ_pos _
  · cases received

/-- No more calls succeed than there are characters. -/
theorem messagesWithin_of_le
    {count : Nat}
    {stream : CString}
    (enough : stream.length ≤ count) :
    messagesWithin count stream = receivedMessages stream := by
  induction count using Nat.strongRecOn generalizing stream with
  | _ count inductionHypothesis =>
      rw [receivedMessages]
      cases received : protocolReceiveMessage stream with
      | none =>
          cases count <;> cases stream.length <;>
            simp only [messagesWithin, received]
      | some result =>
          obtain ⟨raw, rest⟩ := result
          have shorter := length_of_protocolReceiveMessage received
          obtain ⟨fewer, isFewer⟩ : ∃ n, count = n + 1 :=
            ⟨count - 1, by omega⟩
          obtain ⟨below, isBelow⟩ : ∃ n, stream.length = n + 1 :=
            ⟨stream.length - 1, by omega⟩
          rw [isFewer, isBelow]
          simp only [messagesWithin, received]
          rw [inductionHypothesis fewer (by omega) (by omega),
            inductionHypothesis below (by omega) (by omega)]

/-- A line is received, or ends what is received if it is too long. -/
theorem receivedMessages_line
    {line : CString}
    (oneLine : newline ∉ line)
    (rest : CString) :
    receivedMessages (line ++ newline :: rest) =
      if TooLong line then [] else fieldsOf line :: receivedMessages rest := by
  have positive : (line ++ newline :: rest).length =
      (line.length + rest.length) + 1 := by
    rw [List.length_append, List.length_cons]
    omega
  rw [receivedMessages, positive, messagesWithin,
    protocolReceiveMessage_line oneLine]
  by_cases long : TooLong line
  · rw [if_pos long, if_pos long]
  · rw [if_neg long, if_neg long]
    simp only [protocolParseMessage_line long]
    rw [messagesWithin_of_le (by omega)]

@[simp] theorem receivedMessages_nil : receivedMessages [] = [] :=
  rfl

/-- The messages of lines sent one after the other. -/
def messagesOfLines : List CString → List (List CString)
  | [] =>
      []
  | line :: rest =>
      if TooLong line then [] else fieldsOf line :: messagesOfLines rest

/-- Lines, each with its line end. -/
def joinLines (lines : List CString) : CString :=
  lines.flatMap (· ++ [newline])

theorem joinLines_cons (line : CString) (rest : List CString) :
    joinLines (line :: rest) = line ++ newline :: joinLines rest := by
  simp [joinLines]

theorem joinLines_append (first second : List CString) :
    joinLines (first ++ second) = joinLines first ++ joinLines second :=
  List.flatMap_append

/-- The lines of a text, with a line end behind the last one too. -/
theorem joinLines_splitOnP (text : CString) :
    joinLines (text.splitOnP fun c => c = newline) = text ++ [newline] := by
  induction text with
  | nil =>
      rfl
  | cons c rest inductionHypothesis =>
      rw [List.splitOnP_cons_eq_if_modifyHead]
      split
      · next isEnd =>
        rw [joinLines_cons, inductionHypothesis, of_decide_eq_true isEnd]
        rfl
      · obtain ⟨first, others, parts⟩ :=
          List.exists_cons_of_ne_nil
            (List.splitOnP_ne_nil (fun c => decide (c = newline)) rest)
        rw [parts, joinLines_cons] at inductionHypothesis
        rw [parts, List.modifyHead_cons, joinLines_cons, List.cons_append,
          inductionHypothesis, List.cons_append]

theorem receivedMessages_joinLines
    {lines : List CString}
    (oneLine : ∀ line ∈ lines, newline ∉ line) :
    receivedMessages (joinLines lines) = messagesOfLines lines := by
  induction lines with
  | nil =>
      rfl
  | cons line rest inductionHypothesis =>
      have recursive :=
        inductionHypothesis fun other listed =>
          oneLine other (List.mem_cons_of_mem line listed)
      rw [joinLines_cons, receivedMessages_line (oneLine line List.mem_cons_self),
        recursive, messagesOfLines]

/-! ## Fields -/

/-- The first field of a line. -/
def firstField (line : CString) : CString :=
  line.takeWhile (· ≠ protocolDelimiter)

theorem splitOnP_eq_cons {α : Type} (separates : α → Bool) (text : List α) :
    ∃ others,
      text.splitOnP separates =
        text.takeWhile (fun c => !separates c) :: others := by
  induction text with
  | nil =>
      exact ⟨[], rfl⟩
  | cons c rest inductionHypothesis =>
      obtain ⟨others, split⟩ := inductionHypothesis
      rw [List.splitOnP_cons_eq_if_modifyHead, List.takeWhile_cons]
      cases separates c with
      | true =>
          exact ⟨rest.splitOnP separates, rfl⟩
      | false =>
          rw [split]
          exact ⟨others, rfl⟩

/-- A parsed line begins with its first field. -/
theorem fieldsOf_eq_cons (line : CString) :
    ∃ others, fieldsOf line = firstField line :: others := by
  obtain ⟨others, split⟩ :=
    splitOnP_eq_cons (fun c => decide (c = protocolDelimiter)) line
  refine ⟨others.take (maxFields - 1), ?_⟩
  rw [fieldsOf, split, firstField]
  simp [maxFields]

theorem fieldsOf_delimited
    {label : CString}
    (plain : protocolDelimiter ∉ label)
    (text : CString) :
    fieldsOf (label ++ protocolDelimiter :: text) =
      label ::
        (text.splitOnP fun c => c = protocolDelimiter).take
          (maxFields - 1) := by
  have free : ∀ c ∈ label, decide (c = protocolDelimiter) = false := by
    intro c member
    rw [decide_eq_false_iff_not]
    rintro rfl
    exact plain member
  rw [fieldsOf, List.splitOnP_append_cons_of_forall_mem free _
    (decide_eq_true rfl)]
  rfl

theorem firstField_of_plain
    {field : CString}
    (plain : protocolDelimiter ∉ field) :
    firstField field = field := by
  rw [firstField, List.takeWhile_eq_self_iff]
  intro c member
  rw [decide_eq_true_eq]
  rintro rfl
  exact plain member

theorem not_mem_firstField (text : CString) :
    protocolDelimiter ∉ firstField text := by
  intro member
  have kept := List.mem_takeWhile_imp member
  simp at kept

/-- The fields of a plain label and a text. -/
theorem fieldsOf_labelled
    {label : CString}
    (plain : protocolDelimiter ∉ label)
    (text : CString) :
    ∃ others,
      fieldsOf (label ++ protocolDelimiter :: text) =
        label :: firstField text :: others := by
  obtain ⟨others, split⟩ :=
    splitOnP_eq_cons (fun c => decide (c = protocolDelimiter)) text
  refine ⟨others.take (maxFields - 2), ?_⟩
  rw [fieldsOf_delimited plain, split, firstField]
  simp [maxFields]

/-- A field of a line consists of its characters, and of no delimiter. -/
theorem of_mem_fieldsOf
    {line field : CString}
    (listed : field ∈ fieldsOf line)
    {c : CChar}
    (member : c ∈ field) :
    c ∈ line ∧ c ≠ protocolDelimiter := by
  obtain ⟨found, kept⟩ := of_mem_splitOnP (List.mem_of_mem_take listed) member
  exact ⟨found, of_decide_eq_false kept⟩

end DistributedDocs
