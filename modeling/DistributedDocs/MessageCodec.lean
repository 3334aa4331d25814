import DistributedDocs.WireProtocol

namespace DistributedDocs

/-!
# Messages and their fields

The loop of `protocol_parse_message` cuts a message at its delimiters, up to
`MAX_FIELDS` fields.  Within the limits of the format, it and
`protocol_build_message` undo each other.
-/

/--
The loop of `protocol_parse_message` on what is left of the working copy, with
room for so many more fields.
-/
def parseTokens : Nat → CString → List CString
  | 0, _ =>
      []
  | room + 1, current =>
      let field := current.takeWhile (· ≠ protocolDelimiter)
      match current.drop field.length with
      | [] =>
          [field]
      | [_] =>
          -- the message ends with a delimiter: one final empty field
          field :: if 0 < room then [[]] else []
      | _ :: next =>
          field :: parseTokens room next

/-- `protocol_parse_message` with its loop. -/
def protocolParseTokens (raw : CString) : List CString :=
  parseTokens maxFields (stripNewline (raw.take (maxMessageSize - 1)))

/-- A text without delimiter is one field. -/
theorem parseTokens_plain
    {field : CString}
    (plain : protocolDelimiter ∉ field)
    (room : Nat) :
    parseTokens (room + 1) field = [field] := by
  have whole : field.takeWhile (· ≠ protocolDelimiter) = field :=
    firstField_of_plain plain
  simp only [parseTokens, whole, List.drop_length]

/-- A text is cut at its first delimiter. -/
theorem parseTokens_delimited
    {field : CString}
    (plain : protocolDelimiter ∉ field)
    (room : Nat)
    (next : CString) :
    parseTokens (room + 1) (field ++ protocolDelimiter :: next) =
      field :: parseTokens room next := by
  have before :
      (field ++ protocolDelimiter :: next).takeWhile
          (· ≠ protocolDelimiter) =
        field := by
    have kept : ∀ c ∈ field, decide (c ≠ protocolDelimiter) = true := by
      intro c member
      rw [decide_eq_true_eq]
      rintro rfl
      exact plain member
    rw [List.takeWhile_append_of_pos kept, List.takeWhile_cons]
    simp
  simp only [parseTokens, before, List.drop_left]
  cases next with
  | nil =>
      cases room with
      | zero =>
          rfl
      | succ fewer =>
          simp [parseTokens]
  | cons c rest =>
      rfl

/-- The loop gives the first fields of the text. -/
theorem parseTokens_eq_take (room : Nat) (text : CString) :
    parseTokens room text =
      (text.splitOnP fun c => c = protocolDelimiter).take room := by
  have free :
      ∀ {field : CString}, protocolDelimiter ∉ field →
        ∀ c ∈ field, decide (c = protocolDelimiter) = false := by
    intro field plain c member
    rw [decide_eq_false_iff_not]
    rintro rfl
    exact plain member
  induction room generalizing text with
  | zero =>
      rfl
  | succ fewer inductionHypothesis =>
      by_cases delimited : protocolDelimiter ∈ text
      · obtain ⟨field, next, rfl, plain⟩ :=
          List.eq_append_cons_of_mem delimited
        rw [parseTokens_delimited plain,
          List.splitOnP_append_cons_of_forall_mem (free plain) _
            (decide_eq_true rfl),
          List.take_succ_cons, inductionHypothesis]
      · rw [parseTokens_plain delimited,
          List.splitOnP_eq_singleton (free delimited), List.take_succ_cons,
          List.take_nil]

theorem protocolParseTokens_eq (raw : CString) :
    protocolParseTokens raw = protocolParseMessage raw :=
  parseTokens_eq_take maxFields _

/-! ## Both directions -/

/-- As many fields as delimiters, and one more. -/
theorem length_splitOnP (text : CString) :
    (text.splitOnP fun c => c = protocolDelimiter).length =
      text.count protocolDelimiter + 1 := by
  induction text with
  | nil =>
      rfl
  | cons c rest inductionHypothesis =>
      rw [List.splitOnP_cons_eq_if_modifyHead, List.count_cons]
      by_cases delimits : c = protocolDelimiter
      · simp [delimits, inductionHypothesis]
      · simp only [delimits, decide_false, Bool.false_eq_true, ↓reduceIte,
          List.length_modifyHead, inductionHypothesis, beq_iff_eq,
          Nat.add_zero]

/-- What has been built is parsed into the fields it was built from. -/
theorem protocolParseTokens_protocolBuildMessage
    {fields : List CString}
    (nonempty : fields ≠ [])
    (few : fields.length ≤ maxFields)
    (plain : ∀ field ∈ fields, PlainField field)
    (short : (protocolBuildMessage fields).length < maxMessageSize) :
    protocolParseTokens (protocolBuildMessage fields) = fields := by
  have line :
      ¬TooLong (List.intercalate [protocolDelimiter] fields) := by
    rw [protocolBuildMessage, List.length_append, List.length_singleton]
      at short
    rw [TooLong]
    omega
  rw [protocolParseTokens_eq, protocolBuildMessage,
    protocolParseMessage_line line, fieldsOf,
    splitOnP_intercalate protocolDelimiter nonempty
      fun field listed => (plain field listed).1]
  exact List.take_of_length_le few

/-- What has been parsed is built into the line it was parsed from. -/
theorem protocolBuildMessage_protocolParseTokens
    {line : CString}
    (few : line.count protocolDelimiter ≤ maxFields - 1)
    (short : (line ++ [newline]).length < maxMessageSize) :
    protocolBuildMessage (protocolParseTokens (line ++ [newline])) =
      line ++ [newline] := by
  have fits : ¬TooLong line := by
    rw [List.length_append, List.length_singleton] at short
    rw [TooLong]
    omega
  have all :
      (line.splitOnP fun c => c = protocolDelimiter).length ≤ maxFields := by
    rw [length_splitOnP]
    rw [maxFields] at few ⊢
    omega
  have byEquality :
      (fun c => decide (c = protocolDelimiter)) =
        (· == protocolDelimiter) := by
    funext c
    rw [beq_eq_decide]
  rw [protocolParseTokens_eq, protocolParseMessage_line fits, fieldsOf,
    List.take_of_length_le all, protocolBuildMessage, byEquality,
    ← List.splitOn_eq_splitOnP, List.intercalate_splitOn]

/--
Within the limits of the format, parsing undoes building, and building undoes
parsing.
-/
theorem messageCodec_bijective :
    (∀ fields : List CString, fields ≠ [] → fields.length ≤ maxFields →
        (∀ field ∈ fields, PlainField field) →
          (protocolBuildMessage fields).length < maxMessageSize →
            protocolParseTokens (protocolBuildMessage fields) = fields) ∧
      ∀ raw line : CString, raw = line ++ [newline] → newline ∉ line →
        raw.count protocolDelimiter ≤ maxFields - 1 →
          raw.length < maxMessageSize →
            protocolBuildMessage (protocolParseTokens raw) = raw := by
  constructor
  · intro fields nonempty few plain short
    exact protocolParseTokens_protocolBuildMessage nonempty few plain short
  · rintro raw line rfl _ few short
    refine protocolBuildMessage_protocolParseTokens ?_ short
    exact le_trans (List.Sublist.count_le _ (List.sublist_append_left _ _))
      few

/-- Empty fields in front, in between and at the end. -/
theorem messageCodec_bijective_emptyFields :
    protocolParseTokens
        (protocolBuildMessage [[], str "a", [], str "b c", []]) =
        [[], str "a", [], str "b c", []] ∧
      protocolBuildMessage (protocolParseTokens (str "|a||b c|\n")) =
        str "|a||b c|\n" :=
  ⟨messageCodec_bijective.1 _ (by decide) (by decide) (by decide)
      (by decide),
    messageCodec_bijective.2 _ (str "|a||b c|") (by decide) (by decide)
      (by decide) (by decide)⟩

end DistributedDocs
