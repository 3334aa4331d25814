import DistributedDocs.FileSync
import DistributedDocs.StorageRestart

namespace DistributedDocs

/-!
# The files a storage server announces

After `HELLO_SS` a storage server runs `ss_emit_file_list`: one `SS_HAS_FILE`
for every record, with the counts of the content as it is then, and
`SS_FILES_DONE`.
-/

/-! ## Access lists as text -/

/-- The loop of `ss_join_acl`, with the text written so far. -/
def joinAclFrom
    (bufferSize : Nat)
    (text : CString) : List CString → Option CString
  | [] =>
      some text
  | entry :: rest =>
      let name := entry.take maxUsernameLength
      if name = [] then
        joinAclFrom bufferSize text rest
      else if
          bufferSize ≤ text.length + name.length + (if text = [] then 0 else 1)
        then
        none
      else if text = [] then
        joinAclFrom bufferSize name rest
      else
        joinAclFrom bufferSize (text ++ str "," ++ name) rest

/-- `ss_join_acl`; none where it returns -1. -/
def ssJoinAcl (entries : List CString) (bufferSize : Nat) : Option CString :=
  if bufferSize = 0 then none else joinAclFrom bufferSize [] entries

/-- A text gets the users behind it as long as they fit. -/
theorem joinAclFrom_of_fits
    {bufferSize : Nat}
    {text : CString}
    {users : List CString}
    (started : text ≠ [])
    (valid : ∀ user ∈ users, validateUsername user = true)
    (fits :
      (List.intercalate (str ",") (text :: users)).length < bufferSize) :
    joinAclFrom bufferSize text users =
      some (List.intercalate (str ",") (text :: users)) := by
  induction users generalizing text with
  | nil =>
      rw [joinAclFrom, List.intercalate_singleton]
  | cons user rest inductionHypothesis =>
      rw [List.forall_mem_cons] at valid
      obtain ⟨nonempty, short, _⟩ := validateUsername_iff.mp valid.1
      have regrouped :
          List.intercalate (str ",") (text :: user :: rest) =
            List.intercalate (str ",") ((text ++ str "," ++ user) :: rest) := by
        cases rest with
        | nil =>
            rw [List.intercalate_cons_cons, List.intercalate_singleton,
              List.intercalate_singleton]
        | cons next later =>
            rw [List.intercalate_cons_cons, List.intercalate_cons_cons,
              List.intercalate_cons_cons]
            simp only [List.append_assoc]
      rw [regrouped] at fits ⊢
      have room :
          ¬bufferSize ≤ text.length + user.length + 1 := by
        have joined :=
          length_intercalate_add_one (CChar.ofChar ',')
            (List.cons_ne_nil (text ++ str "," ++ user) rest)
        have comma : str "," = [CChar.ofChar ','] := by decide
        rw [roomFor_cons, ← comma] at joined
        simp only [List.length_append, comma, List.length_singleton] at joined
        rw [comma] at fits
        omega
      have longer : text ++ str "," ++ user ≠ [] := by
        simp [nonempty]
      rw [joinAclFrom]
      simp only [List.take_of_length_le short.le, nonempty, started, room,
        ↓reduceIte]
      exact inductionHypothesis longer valid.2 fits

/-- Valid users whose text fits the buffer are all written. -/
theorem ssJoinAcl_of_fits
    {bufferSize : Nat}
    {users : List CString}
    (valid : ∀ user ∈ users, validateUsername user = true)
    (fits : (csv users).length < bufferSize) :
    ssJoinAcl users bufferSize = some (csv users) := by
  rw [ssJoinAcl, if_neg (by omega)]
  cases users with
  | nil =>
      rfl
  | cons user rest =>
      rw [List.forall_mem_cons] at valid
      obtain ⟨nonempty, short, _⟩ := validateUsername_iff.mp valid.1
      have room : ¬bufferSize ≤ user.length := by
        have joined :=
          length_intercalate_add_one (CChar.ofChar ',')
            (List.cons_ne_nil user rest)
        have comma : str "," = [CChar.ofChar ','] := by decide
        rw [roomFor_cons] at joined
        rw [csv, comma] at fits
        omega
      rw [joinAclFrom]
      simp only [List.take_of_length_le short.le, nonempty, List.length_nil,
        Nat.zero_add, Nat.add_zero, room, ↓reduceIte]
      exact joinAclFrom_of_fits nonempty valid.2 fits

/-! ## What is read back of a text -/

/-- What is added to a list with room for all of it. -/
theorem mem_addTokens
    {entries users : List CString}
    (shortEntries : ∀ entry ∈ entries, entry.length < maxUsernameLength)
    (valid : ∀ user ∈ users, validateUsername user = true)
    (room : entries.length + users.length ≤ nsMaxClients)
    (user : CString) :
    user ∈ addTokens entries users ↔ user ∈ entries ∨ user ∈ users := by
  induction users generalizing entries with
  | nil =>
      simp [addTokens]
  | cons first rest inductionHypothesis =>
      rw [List.forall_mem_cons] at valid
      rw [List.length_cons] at room
      obtain ⟨nonempty, short, _⟩ := validateUsername_iff.mp valid.1
      rw [addTokens]
      simp only [trimString_of_validateUsername valid.1, nonempty, ne_eq,
        not_false_eq_true, decide_true, valid.1, Bool.and_self, ↓reduceIte,
        fileAclAdd, fileAclContains_iff shortEntries]
      by_cases listed : first ∈ entries
      · rw [if_pos listed]
        change user ∈ addTokens entries rest ↔ _
        rw [inductionHypothesis shortEntries valid.2 (by omega)]
        constructor
        · rintro (old | later)
          · exact .inl old
          · exact .inr (List.mem_cons_of_mem first later)
        · rintro (old | new)
          · exact .inl old
          · rcases List.mem_cons.mp new with rfl | later
            · exact .inl listed
            · exact .inr later
      · have hasRoom : ¬nsMaxClients ≤ entries.length := by omega
        rw [if_neg listed, if_neg hasRoom]
        change user ∈ addTokens (entries ++ [_]) rest ↔ _
        rw [safeStrcpy_of_short short]
        have shortAll :
            ∀ entry ∈ entries ++ [first],
              entry.length < maxUsernameLength := by
          intro entry member
          rcases List.mem_append.mp member with old | new
          · exact shortEntries entry old
          · rw [List.mem_singleton.mp new]
            exact short
        have roomRest :
            (entries ++ [first]).length + rest.length ≤ nsMaxClients := by
          rw [List.length_append, List.length_singleton]
          omega
        rw [inductionHypothesis shortAll valid.2 roomRest, List.mem_append,
          List.mem_singleton, List.mem_cons, or_assoc]

/-- A text that fits is read back as the same users, whatever is repeated. -/
theorem mem_fileAclParseCsv
    {users : List CString}
    (valid : ∀ user ∈ users, validateUsername user = true)
    (few : users.length ≤ nsMaxClients)
    (fits : (csv users).length < maxFieldSize)
    (user : CString) :
    user ∈ fileAclParseCsv (csv users) ↔ user ∈ users := by
  have nonempty : ∀ user ∈ users, user ≠ [] := fun user listed =>
    (validateUsername_iff.mp (valid user listed)).1
  have noComma : ∀ user ∈ users, CChar.ofChar ',' ∉ user :=
    fun user listed => ne_of_validateUsername (valid user listed) (by decide)
  rw [fileAclParseCsv, safeStrcpy_of_short fits, strtok_csv nonempty noComma,
    mem_addTokens (by simp) valid (by simpa using few)]
  simp

/-! ## The messages -/

/-- The `SS_HAS_FILE` message about a record with the counts of its content. -/
def hasFileMessage
    (rec : FileRecord)
    (size words chars : Nat) : List CString :=
  [ str "SS_HAS_FILE", rec.filename, rec.owner,
    (ssJoinAcl rec.readUsers maxFieldSize).getD [],
    (ssJoinAcl rec.writeUsers maxFieldSize).getD [],
    decimal size, decimal words, decimal chars ]

/-- The body of the loop of `ss_emit_file_list`. -/
def announceRecord (rec : FileRecord) : Handler Unit := do
  let size ← getFileSize rec.filepath
  let content ← ssReadFileContent rec.filepath
  let (words, chars) :=
    match content with
    | some text => (countWords text, countChars text)
    | none => (0, 0)
  send .nameServer (hasFileMessage rec size words chars)

/-- `ss_emit_file_list` -/
def ssEmitFileList : Handler Unit := do
  (← get).files.forM announceRecord
  send .nameServer [str "SS_FILES_DONE"]

/-- The bytes of a record's content; there are none without a file. -/
def contentBytes (disk : Disk CString) (rec : FileRecord) : RawBytes :=
  (disk.bytesAt rec.filepath).getD []

/-- What a record is announced as. -/
def announcement (disk : Disk CString) (rec : FileRecord) : List CString :=
  let bytes := contentBytes disk rec
  hasFileMessage rec bytes.length (countWords (cString bytes))
    (countChars (cString bytes))

/-- All that `ss_emit_file_list` sends. -/
def fileList (ss : StorageServer) : List (List CString) :=
  ss.files.map (announcement ss.disk) ++ [[str "SS_FILES_DONE"]]

section Emitting

variable
  {ss : StorageServer}
  (undisturbed : ss.disk.outcomes = [])

include undisturbed

theorem announceRecord_apply (rec : FileRecord) :
    announceRecord rec ss =
      .ok ()
        { ss with
          sent := ss.sent ++ [⟨.nameServer, announcement ss.disk rec⟩] } := by
  cases held : ss.disk.bytesAt rec.filepath with
  | none =>
      simp [announceRecord, getFileSize, ssReadFileContent, bind_apply,
        get_apply, held, Disk.read_undisturbed undisturbed, announcement,
        contentBytes, cString, countWords, countWordsFrom, countChars]
  | some bytes =>
      simp [announceRecord, getFileSize, ssReadFileContent, bind_apply,
        get_apply, held, Disk.read_undisturbed undisturbed, announcement,
        contentBytes]

theorem forM_announceRecord_apply (recs : List FileRecord) :
    recs.forM announceRecord ss =
      .ok ()
        { ss with
          sent :=
            ss.sent ++
              recs.map fun rec => ⟨.nameServer, announcement ss.disk rec⟩ } := by
  induction recs generalizing ss with
  | nil =>
      simp [pure_apply]
  | cons rec rest inductionHypothesis =>
      change (announceRecord rec >>= fun _ => rest.forM announceRecord) ss = _
      rw [bind_apply, announceRecord_apply undisturbed]
      refine
        (@inductionHypothesis
          { ss with
            sent := ss.sent ++ [⟨.nameServer, announcement ss.disk rec⟩] }
          undisturbed).trans ?_
      simp

/-- The file list is sent, and nothing else happens. -/
theorem ssEmitFileList_apply :
    ssEmitFileList ss =
      .ok ()
        { ss with
          sent := ss.sent ++ (fileList ss).map (Message.mk .nameServer) } := by
  rw [ssEmitFileList, bind_apply, get_apply]
  change ((ss.files.forM announceRecord) >>= _) ss = _
  rw [bind_apply, forM_announceRecord_apply undisturbed]
  simp [fileList]

end Emitting

end DistributedDocs
