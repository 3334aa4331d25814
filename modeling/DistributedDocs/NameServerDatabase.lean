import DistributedDocs.BoundedLines
import DistributedDocs.UserLists
import DistributedDocs.WireProtocol
import Mathlib.Data.List.ModifyLast

namespace DistributedDocs

/-!
# The name server's metadata store

`ns_save_metadata` prints the file table, three lines for an entry, and
`ns_load_metadata` reads it back: lines through a buffer of
`MAX_FIELD_SIZE * 2` bytes, access lists through one of `MAX_FIELD_SIZE`, and
no further line once the table is full.
-/

/-! ## Saving -/

/-- What is printed for a user that may be missing. -/
def userOrNotAvailable (user : CString) : CString :=
  if user = [] then str "N/A" else user

/-- The fields of a `FILE` line. -/
def fileFields (file : FileMetadata) : List CString :=
  [file.filename,
    file.owner,
    file.ssIp,
    decimal file.ssPort,
    decimal file.size,
    decimal file.wordCount,
    decimal file.charCount,
    decimal file.created,
    decimal file.modified,
    decimal file.lastAccess,
    decimal (if file.isDirectory then 1 else 0),
    userOrNotAvailable file.lastAccessUser,
    userOrNotAvailable file.lastModifiedUser]

/-- The `FILE` line of an entry. -/
def fileLine (file : FileMetadata) : CString :=
  str "FILE|" ++ List.intercalate (str "|") (fileFields file)

/-- The `READ` line of an entry. -/
def readLine (file : FileMetadata) : CString :=
  str "READ|" ++ csv file.readAccessUsers

/-- The `WRITE` line of an entry. -/
def writeLine (file : FileMetadata) : CString :=
  str "WRITE|" ++ csv file.writeAccessUsers

/-- The three lines of an entry, and what is printed behind them. -/
def entryText (file : FileMetadata) (behind : CString) : CString :=
  fileLine file ++ newline ::
    (readLine file ++ newline :: (writeLine file ++ newline :: behind))

/-- The lines of all entries. -/
def entriesText : List FileMetadata → CString
  | [] =>
      []
  | file :: rest =>
      entryText file (entriesText rest)

/-- The text `ns_save_metadata` writes. -/
def nsSaveMetadata (ns : NameServer) : CString :=
  decimal ns.files.length ++ newline :: entriesText ns.files

/-! ## Loading -/

/-- The fields of a line, at most thirteen. -/
def splitFields (payload : CString) : List CString :=
  (payload.splitOnP fun c => c = CChar.ofChar '|').take 13

/-- A field that names a user, or `N/A`. -/
def parseUser (field : CString) : CString :=
  if field = str "N/A" then [] else safeStrcpy field maxUsernameLength

/--
The entry with the fields of a `FILE` line, if its name is valid; its access
lists follow on lines of their own.  A field that is missing leaves the zero
`memset` put there, and so does an empty one.
-/
def entryOfFields (document : Nat) (parts : List CString) :
    Option FileMetadata :=
  let part (index : Nat) : CString := parts.getD index []
  let counted : Bool := 11 ≤ parts.length
  if validateFilename (part 0) then
    some
      { filename := safeStrcpy (part 0) maxFilenameLength
        filename_short := length_safeStrcpy_filename _
        owner := safeStrcpy (part 1) maxUsernameLength
        ssIp := safeStrcpy (part 2) maxIpLength
        ssPort := atoi (part 3)
        size := atoll (part 4)
        wordCount := if counted then atoll (part 5) else 0
        charCount := if counted then atoll (part 6) else 0
        isDirectory := counted && atoi (part 10) ≠ 0
        created := atoll (part (if counted then 7 else 5))
        modified := atoll (part (if counted then 8 else 6))
        lastAccess := atoll (part (if counted then 9 else 7))
        lastAccessUser := parseUser (part 11)
        lastModifiedUser := parseUser (part 12)
        readAccessUsers := []
        writeAccessUsers := []
        document := document }
  else
    none

/-- The entry of a `FILE` line. -/
def parseFileLine (document : Nat) (payload : CString) :
    Option FileMetadata :=
  entryOfFields document (splitFields payload)

/-- An entry is appended and indexed. -/
def addLoaded (file : FileMetadata) (ns : NameServer) : NameServer :=
  fileIndexInsert file.filename ns.files.length
    { ns with
      files := ns.files ++ [file]
      nextDocument := ns.nextDocument + 1 }

/-- The state of the loop; `hasCurrent` says that the last entry is `current`. -/
structure Loading where
  hasCurrent : Bool
  ns : NameServer

/-- Change the entry `current` points to. -/
def Loading.changeCurrent
    (change : FileMetadata → FileMetadata)
    (loading : Loading) : Loading :=
  { loading with
    ns := { loading.ns with files := loading.ns.files.modifyLast change } }

/-- The body of the loop of `ns_load_metadata`. -/
def loadLine (line : CString) (loading : Loading) : Loading :=
  let text := trimString line
  if text = [] then
    loading
  else if (str "FILE|").isPrefixOf text then
    match parseFileLine loading.ns.nextDocument (text.drop 5) with
    | none => { loading with hasCurrent := false }
    | some file => ⟨true, addLoaded file loading.ns⟩
  else if loading.hasCurrent && (str "READ|").isPrefixOf text then
    loading.changeCurrent fun file =>
      { file with readAccessUsers := fileAclParseCsv (text.drop 5) }
  else if loading.hasCurrent && (str "WRITE|").isPrefixOf text then
    loading.changeCurrent fun file =>
      { file with writeAccessUsers := fileAclParseCsv (text.drop 6) }
  else
    loading

/-- The loop of `ns_load_metadata`: it ends with the text or a full table. -/
def loadLines : List CString → Loading → NameServer
  | [], loading =>
      loading.ns
  | line :: rest, loading =>
      if loading.ns.files.length < nsMaxFiles then
        loadLines rest (loadLine line loading)
      else
        loading.ns

/-- The pieces `fgets` gives. -/
def fgetsPieces (size : Nat) (text : CString) : List CString :=
  boundedLines (fun c => c = newline) (size - 1) text

/-- The table, the index and the cache as `ns_load_metadata` empties them. -/
def clearedTable (ns : NameServer) : NameServer :=
  { ns with
    files := []
    fileIndex := fun _ => []
    fileCache := List.replicate fileCacheSize freeCacheEntry
    cacheTick := 0 }

/-- `ns_load_metadata`; none where there is no metadata store. -/
def nsLoadMetadata (text : Option CString) (ns : NameServer) : NameServer :=
  match text with
  | none => ns
  | some text =>
      match fgetsPieces (maxFieldSize * 2) text with
      | [] => clearedTable ns
      | _ :: lines => loadLines lines ⟨false, clearedTable ns⟩

/-! ## The lines of an entry -/

/-- What a table entry may hold. -/
structure FileMetadata.Storable (file : FileMetadata) : Prop where
  filename_valid : validateFilename file.filename = true
  filename_oneLine : newline ∉ file.filename
  owner_valid : file.owner = [] ∨ validateUsername file.owner = true
  ssIp_short : file.ssIp.length < maxIpLength
  ssIp_plain : ∀ c ∈ file.ssIp, c ≠ CChar.ofChar '|' ∧ c ≠ newline
  ssPort_fits : FitsInt file.ssPort
  size_fits : FitsLongLong file.size
  wordCount_fits : FitsLongLong file.wordCount
  charCount_fits : FitsLongLong file.charCount
  created_fits : FitsLongLong file.created
  modified_fits : FitsLongLong file.modified
  lastAccess_fits : FitsLongLong file.lastAccess
  lastAccessUser_valid :
    file.lastAccessUser = [] ∨ validateUsername file.lastAccessUser = true
  lastModifiedUser_valid :
    file.lastModifiedUser = [] ∨
      validateUsername file.lastModifiedUser = true
  readers : UserList file.readAccessUsers
  writers : UserList file.writeAccessUsers

theorem plainField_of_validateUsername
    {user : CString}
    (valid : validateUsername user = true) :
    PlainField user :=
  ⟨ne_of_validateUsername valid (by decide),
    ne_of_validateUsername valid (by decide)⟩

theorem plainField_userOrNotAvailable
    {user : CString}
    (valid : user = [] ∨ validateUsername user = true) :
    PlainField (userOrNotAvailable user) := by
  rcases valid with rfl | valid
  · exact ⟨by decide, by decide⟩
  · have nonempty := (validateUsername_iff.mp valid).1
    rw [userOrNotAvailable, if_neg nonempty]
    exact plainField_of_validateUsername valid

namespace FileMetadata.Storable

variable {file : FileMetadata}

/-- No field breaks the line it is printed on. -/
theorem plainField
    (storable : file.Storable) :
    ∀ field ∈ fileFields file, PlainField field := by
  have named : PlainField file.filename := by
    refine ⟨fun member => ?_, storable.filename_oneLine⟩
    have valid := storable.filename_valid
    simp only [validateFilename, Bool.and_eq_true, List.all_eq_true] at valid
    exact absurd (valid.2 _ member) (by decide)
  have owned : PlainField file.owner := by
    rcases storable.owner_valid with none | valid
    · rw [none]
      exact ⟨by simp, by simp⟩
    · exact plainField_of_validateUsername valid
  have located : PlainField file.ssIp :=
    ⟨fun member => (storable.ssIp_plain _ member).1 rfl,
      fun member => (storable.ssIp_plain _ member).2 rfl⟩
  intro field listed
  simp only [fileFields, List.mem_cons, List.not_mem_nil, or_false] at listed
  rcases listed with rfl | rfl | rfl | rfl | rfl | rfl | rfl | rfl | rfl |
    rfl | rfl | rfl | rfl
  · exact named
  · exact owned
  · exact located
  all_goals first
    | exact plainField_decimal _
    | exact plainField_userOrNotAvailable storable.lastAccessUser_valid
    | exact plainField_userOrNotAvailable storable.lastModifiedUser_valid

theorem splitFields_fileFields
    (storable : file.Storable) :
    splitFields (List.intercalate (str "|") (fileFields file)) =
      fileFields file := by
  have split :
      (List.intercalate (str "|") (fileFields file)).splitOnP
          (fun c => c = CChar.ofChar '|') =
        fileFields file :=
    splitOnP_intercalate (CChar.ofChar '|') (List.cons_ne_nil _ _)
      fun field listed => (storable.plainField field listed).1
  rw [splitFields, split]
  rfl

end FileMetadata.Storable

theorem parseUser_userOrNotAvailable
    {user : CString}
    (valid : user = [] ∨ validateUsername user = true) :
    parseUser (userOrNotAvailable user) = user := by
  rcases valid with rfl | valid
  · rfl
  · obtain ⟨nonempty, short, _⟩ := validateUsername_iff.mp valid
    have named : user ≠ str "N/A" := by
      rintro rfl
      exact absurd valid (by decide)
    rw [userOrNotAvailable, if_neg nonempty, parseUser, if_neg named,
      safeStrcpy_of_short short]

/-- The entry as its `FILE` line gives it back. -/
def FileMetadata.unshared (document : Nat) (file : FileMetadata) :
    FileMetadata :=
  { file with
    readAccessUsers := []
    writeAccessUsers := []
    document := document }

/-- The fields of an entry are read back from its `FILE` line. -/
theorem parseFileLine_fileFields
    {file : FileMetadata}
    (storable : file.Storable)
    (document : Nat) :
    parseFileLine document (List.intercalate (str "|") (fileFields file)) =
      some (file.unshared document) := by
  have ownerShort : file.owner.length < maxUsernameLength := by
    rcases storable.owner_valid with none | valid
    · rw [none]
      decide
    · exact (validateUsername_iff.mp valid).2.1
  have flag :
      (decide (atoi (decimal (if file.isDirectory then 1 else 0)) ≠ 0)) =
        file.isDirectory := by
    cases file.isDirectory <;> decide
  rw [parseFileLine, storable.splitFields_fileFields]
  simp only [entryOfFields, fileFields, List.length_cons, List.length_nil,
    List.getD_cons_zero, List.getD_cons_succ, storable.filename_valid,
    ↓reduceIte]
  simp only [safeStrcpy_of_short file.filename_short,
    safeStrcpy_of_short ownerShort, safeStrcpy_of_short storable.ssIp_short,
    atoi_decimal storable.ssPort_fits, atoll_decimal storable.size_fits,
    Nat.reduceLeDiff, decide_true, ↓reduceIte, Bool.true_and,
    List.getD_cons_zero, List.getD_cons_succ,
    atoll_decimal storable.wordCount_fits,
    atoll_decimal storable.charCount_fits,
    atoll_decimal storable.created_fits,
    atoll_decimal storable.modified_fits,
    atoll_decimal storable.lastAccess_fits, flag,
    parseUser_userOrNotAvailable storable.lastAccessUser_valid,
    parseUser_userOrNotAvailable storable.lastModifiedUser_valid]
  rfl

/-! ## Reading the lines of an entry -/

/-- The pieces the loop of `ns_load_metadata` takes. -/
def databasePieces (text : CString) : List CString :=
  fgetsPieces (maxFieldSize * 2) text

/-- A trimmed piece of a line without white space is the line, cut. -/
theorem trimString_take_line
    {line : CString}
    (solid : ∀ c ∈ line, isspace c = false)
    (limit : Nat) :
    trimString ((line ++ [newline]).take limit) = line.take limit := by
  rcases Nat.lt_or_ge line.length limit with short | long
  · have whole : (line ++ [newline]).take limit = line ++ [newline] :=
      List.take_of_length_le (by simpa using Nat.succ_le_of_lt short)
    rw [whole, List.take_of_length_le short.le]
    exact trimString_append_space
      (fun c isFirst => solid c (List.mem_of_mem_head? isFirst))
      (fun c isLast => solid c (List.mem_of_mem_getLast? isLast)) (by decide)
  · rw [List.take_append_of_le_length long]
    exact trimString_of_no_space fun c member =>
      solid c (List.mem_of_mem_take member)

/-- The text of a list of users has no white space and no `|`. -/
theorem plain_csv
    {users : List CString}
    (list : UserList users) :
    ∀ c ∈ csv users, isspace c = false ∧ c ≠ CChar.ofChar '|' := by
  intro c member
  rcases mem_intercalate member with rfl | ⟨user, listed, inUser⟩
  · exact ⟨by decide, by decide⟩
  · have valid := list.valid user listed
    refine
      ⟨isspace_of_isalnum ((validateUsername_iff.mp valid).2.2 c inUser), ?_⟩
    rintro rfl
    exact ne_of_validateUsername valid (by decide) inUser

/-- A label of an access list: short, and what follows begins behind `|`. -/
structure ListLabel (label : CString) : Prop where
  short : label.length ≤ 6
  solid : ∀ c ∈ label, isspace c = false
  delimited : CChar.ofChar '|' ∈ label

theorem listLabel_read : ListLabel (str "READ|") :=
  ⟨by decide, by decide +kernel, by decide⟩

theorem listLabel_write : ListLabel (str "WRITE|") :=
  ⟨by decide, by decide +kernel, by decide⟩

/-- What is left of the line of an access list when it has been trimmed. -/
theorem trimString_listLine
    {label : CString}
    (labelled : ListLabel label)
    {users : List CString}
    (list : UserList users) :
    trimString
        ((label ++ csv users ++ [newline]).take (maxFieldSize * 2 - 1)) =
      label ++ (csv users).take (maxFieldSize * 2 - 1 - label.length) := by
  have solid : ∀ c ∈ label ++ csv users, isspace c = false := by
    intro c member
    rcases List.mem_append.mp member with inLabel | inList
    · exact labelled.solid c inLabel
    · exact (plain_csv list c inList).1
  have short := labelled.short
  have labelFits : label.length ≤ maxFieldSize * 2 - 1 := by
    rw [maxFieldSize]
    omega
  rw [trimString_take_line solid, List.take_append,
    List.take_of_length_le labelFits]

/-- The buffer of the list is the smaller one. -/
theorem fileAclParseCsv_take
    {label : CString}
    (labelled : ListLabel label)
    (text : CString) :
    fileAclParseCsv (text.take (maxFieldSize * 2 - 1 - label.length)) =
      fileAclParseCsv text := by
  have short := labelled.short
  have smaller :
      min (maxFieldSize - 1) (maxFieldSize * 2 - 1 - label.length) =
        maxFieldSize - 1 := by
    rw [maxFieldSize]
    omega
  rw [fileAclParseCsv, fileAclParseCsv, safeStrcpy, safeStrcpy,
    List.take_take, smaller]

/-- A line that holds no `|` is passed over. -/
theorem loadLine_of_no_separator
    {line : CString}
    (free : CChar.ofChar '|' ∉ line)
    (loading : Loading) :
    loadLine line loading = loading := by
  have unlabelled :
      ∀ label : CString, CChar.ofChar '|' ∈ label →
        label.isPrefixOf (trimString line) = false := by
    intro label delimited
    rw [Bool.eq_false_iff, ne_eq, List.isPrefixOf_iff_prefix]
    intro labelled
    exact free ((trimString_sublist line).subset (labelled.subset delimited))
  have noFile := unlabelled (str "FILE|") (by decide)
  have noRead := unlabelled (str "READ|") (by decide)
  have noWrite := unlabelled (str "WRITE|") (by decide)
  simp only [loadLine, noFile, noRead, noWrite, Bool.and_false,
    Bool.false_eq_true, ↓reduceIte, ite_self]

theorem loadLines_passed_over
    {pieces : List CString}
    (free : ∀ piece ∈ pieces, CChar.ofChar '|' ∉ piece)
    (rest : List CString)
    (loading : Loading) :
    loadLines (pieces ++ rest) loading = loadLines rest loading := by
  induction pieces with
  | nil =>
      rfl
  | cons piece pieces inductionHypothesis =>
      have recursive :=
        inductionHypothesis fun other listed =>
          free other (List.mem_cons_of_mem piece listed)
      rw [List.cons_append, loadLines,
        loadLine_of_no_separator (free piece List.mem_cons_self), recursive]
      split
      · rfl
      · next full =>
        cases rest with
        | nil =>
            rfl
        | cons line later =>
            rw [loadLines, if_neg full]

/-- The pieces of the line of an access list. -/
theorem loadLines_listLine
    {label : CString}
    (labelled : ListLabel label)
    {users : List CString}
    (list : UserList users)
    {loading : Loading}
    (room : loading.ns.files.length < nsMaxFiles)
    (behind : CString) :
    loadLines
        (databasePieces (label ++ csv users ++ newline :: behind)) loading =
      loadLines (databasePieces behind)
        (loadLine
          ((label ++ csv users ++ [newline]).take (maxFieldSize * 2 - 1))
          loading) := by
  have oneLine :
      ∀ c ∈ label ++ csv users, decide (c = newline) = false := by
    intro c member
    have solid : isspace c = false := by
      rcases List.mem_append.mp member with inLabel | inList
      · exact labelled.solid c inLabel
      · exact (plain_csv list c inList).1
    rw [decide_eq_false_iff_not]
    rintro rfl
    exact absurd solid (by decide)
  obtain ⟨later, pieces, restOfLine⟩ :=
    @boundedLines_line CChar (fun c => c = newline) (maxFieldSize * 2 - 1)
      (label ++ csv users) behind newline (by decide) oneLine
      (decide_eq_true rfl)
  have free : ∀ piece ∈ later, CChar.ofChar '|' ∉ piece := by
    intro piece isLater member
    have inRest : CChar.ofChar '|' ∈ later.flatten :=
      List.mem_flatten.mpr ⟨piece, isLater, member⟩
    have short := labelled.short
    have labelFits : label.length ≤ maxFieldSize * 2 - 1 := by
      rw [maxFieldSize]
      omega
    rw [restOfLine, List.append_assoc, List.drop_append,
      List.drop_of_length_le labelFits, List.nil_append] at inRest
    rcases List.mem_append.mp (List.mem_of_mem_drop inRest) with
      inList | isEnd
    · exact (plain_csv list _ inList).2 rfl
    · exact absurd isEnd (by decide)
  rw [databasePieces, fgetsPieces, pieces, loadLines, if_pos room,
    loadLines_passed_over free]
  rfl

/-- The `READ` line sets the readers of the current entry. -/
theorem loadLine_readLine
    {users : List CString}
    (list : UserList users)
    {loading : Loading}
    (current : loading.hasCurrent = true) :
    loadLine
        ((str "READ|" ++ csv users ++ [newline]).take (maxFieldSize * 2 - 1))
        loading =
      loading.changeCurrent fun file =>
        { file with readAccessUsers := fileAclParseCsv (csv users) } := by
  have parsed := fileAclParseCsv_take listLabel_read (csv users)
  simp only [loadLine, trimString_listLine listLabel_read list, current,
    Bool.true_and]
  generalize (csv users).take _ = text at parsed ⊢
  have label : str "READ|" = CChar.ofChar 'R' :: str "EAD|" := by decide
  have notFile :
      (str "FILE|").isPrefixOf (str "READ|" ++ text) = false := by
    rw [label]
    rfl
  have isRead : (str "READ|").isPrefixOf (str "READ|" ++ text) = true :=
    List.isPrefixOf_iff_prefix.mpr (List.prefix_append _ _)
  have payload : (str "READ|" ++ text).drop 5 = text :=
    List.drop_left' (by decide)
  have nonempty : str "READ|" ++ text ≠ [] := by
    rw [label]
    exact List.cons_ne_nil _ _
  rw [if_neg nonempty, notFile, isRead, payload, parsed]
  rfl

/-- The `WRITE` line sets the writers of the current entry. -/
theorem loadLine_writeLine
    {users : List CString}
    (list : UserList users)
    {loading : Loading}
    (current : loading.hasCurrent = true) :
    loadLine
        ((str "WRITE|" ++ csv users ++ [newline]).take (maxFieldSize * 2 - 1))
        loading =
      loading.changeCurrent fun file =>
        { file with writeAccessUsers := fileAclParseCsv (csv users) } := by
  have parsed := fileAclParseCsv_take listLabel_write (csv users)
  simp only [loadLine, trimString_listLine listLabel_write list, current,
    Bool.true_and]
  generalize (csv users).take _ = text at parsed ⊢
  have label : str "WRITE|" = CChar.ofChar 'W' :: str "RITE|" := by decide
  have notFile :
      (str "FILE|").isPrefixOf (str "WRITE|" ++ text) = false := by
    rw [label]
    rfl
  have notRead :
      (str "READ|").isPrefixOf (str "WRITE|" ++ text) = false := by
    rw [label]
    rfl
  have isWrite : (str "WRITE|").isPrefixOf (str "WRITE|" ++ text) = true :=
    List.isPrefixOf_iff_prefix.mpr (List.prefix_append _ _)
  have payload : (str "WRITE|" ++ text).drop 6 = text :=
    List.drop_left' (by decide)
  have nonempty : str "WRITE|" ++ text ≠ [] := by
    rw [label]
    exact List.cons_ne_nil _ _
  rw [if_neg nonempty, notFile, notRead, isWrite, payload, parsed]
  rfl

namespace FileMetadata.Storable

variable {file : FileMetadata}

/-- No line end is printed inside a `FILE` line. -/
theorem newline_not_mem_fileLine
    (storable : file.Storable) :
    newline ∉ fileLine file := by
  intro member
  rcases List.mem_append.mp member with inLabel | inFields
  · exact absurd inLabel (by decide)
  · rcases mem_intercalate inFields with isSeparator | ⟨field, listed, inField⟩
    · exact absurd isSeparator (by decide)
    · exact (storable.plainField field listed).2 inField

/-- A `FILE` line fits the buffer. -/
theorem length_fileLine_lt
    (storable : file.Storable) :
    (fileLine file).length < maxFieldSize * 2 - 1 := by
  have userShort :
      ∀ {user : CString}, user = [] ∨ validateUsername user = true →
        user.length < maxUsernameLength := by
    intro user valid
    rcases valid with rfl | valid
    · decide
    · exact (validateUsername_iff.mp valid).2.1
  have printedShort :
      ∀ {user : CString}, user = [] ∨ validateUsername user = true →
        (userOrNotAvailable user).length < maxUsernameLength := by
    intro user valid
    unfold userOrNotAvailable
    split
    · decide
    · exact userShort valid
  have numberShort :
      ∀ {n : Int}, FitsLongLong n → (decimal n).length < maxFilenameLength :=
    fun fits => Nat.lt_of_le_of_lt (length_decimal_le fits) (by decide)
  have portFits : FitsLongLong file.ssPort := by
    obtain ⟨low, high⟩ := storable.ssPort_fits
    exact ⟨by omega, by omega⟩
  have flagFits : FitsLongLong (if file.isDirectory then 1 else 0) := by
    cases file.isDirectory <;> exact ⟨by decide, by decide⟩
  have userBuffer : maxUsernameLength < maxFilenameLength := by decide
  have ipBuffer : maxIpLength < maxFilenameLength := by decide
  have fieldsShort :
      ∀ field ∈ fileFields file, field.length < maxFilenameLength := by
    simp only [fileFields, List.forall_mem_cons]
    exact
      ⟨file.filename_short,
        (userShort storable.owner_valid).trans userBuffer,
        storable.ssIp_short.trans ipBuffer,
        numberShort portFits,
        numberShort storable.size_fits,
        numberShort storable.wordCount_fits,
        numberShort storable.charCount_fits,
        numberShort storable.created_fits,
        numberShort storable.modified_fits,
        numberShort storable.lastAccess_fits,
        numberShort flagFits,
        (printedShort storable.lastAccessUser_valid).trans userBuffer,
        (printedShort storable.lastModifiedUser_valid).trans userBuffer,
        by simp⟩
  have room := roomFor_le fieldsShort
  have fields : (fileFields file).length = 13 := rfl
  rw [fields, maxFilenameLength] at room
  have joined :
      (List.intercalate (str "|") (fileFields file)).length + 1 =
        roomFor (fileFields file) :=
    length_intercalate_add_one (CChar.ofChar '|') (List.cons_ne_nil _ _)
  have label : (str "FILE|").length = 5 := by decide
  rw [fileLine, List.length_append, label, maxFieldSize]
  omega

/-- A `FILE` line ends with a user name or `N/A`. -/
theorem solid_ends_fileLine
    (storable : file.Storable) :
    (∀ c ∈ (fileLine file).head?, isspace c = false) ∧
      ∀ c ∈ (fileLine file).getLast?, isspace c = false := by
  have lastSolid :
      ∀ c ∈ userOrNotAvailable file.lastModifiedUser, isspace c = false := by
    intro c member
    rcases storable.lastModifiedUser_valid with none | valid
    · rw [none] at member
      exact
        (by decide +kernel : ∀ c ∈ userOrNotAvailable [], isspace c = false) c
          member
    · rw [userOrNotAvailable, if_neg (validateUsername_iff.mp valid).1]
        at member
      exact isspace_of_isalnum ((validateUsername_iff.mp valid).2.2 c member)
  have nonempty : userOrNotAvailable file.lastModifiedUser ≠ [] := by
    unfold userOrNotAvailable
    split
    · decide
    · assumption
  have shape :
      ∃ front,
        fileLine file =
          CChar.ofChar 'F' ::
            (front ++ userOrNotAvailable file.lastModifiedUser) := by
    have label : str "FILE|" = CChar.ofChar 'F' :: str "ILE|" := by decide
    rw [fileLine, label]
    simp only [fileFields, List.intercalate_cons_cons,
      List.intercalate_singleton, List.cons_append, ← List.append_assoc]
    exact ⟨_, rfl⟩
  obtain ⟨front, whole⟩ := shape
  rw [whole]
  refine ⟨?_, fun c isLast => ?_⟩
  · rintro c ⟨⟩
    decide
  · rw [← List.cons_append, List.getLast?_append_of_ne_nil _ nonempty]
      at isLast
    exact lastSolid c (List.mem_of_mem_getLast? isLast)

/-- The `FILE` line of an entry appends the entry, without its lists. -/
theorem loadLine_fileLine
    (storable : file.Storable)
    (loading : Loading) :
    loadLine (fileLine file ++ [newline]) loading =
      ⟨true,
        addLoaded (file.unshared loading.ns.nextDocument) loading.ns⟩ := by
  obtain ⟨first, last⟩ := storable.solid_ends_fileLine
  have trimmed : trimString (fileLine file ++ [newline]) = fileLine file :=
    trimString_append_space first last (by decide)
  have isFile : (str "FILE|").isPrefixOf (fileLine file) = true :=
    List.isPrefixOf_iff_prefix.mpr (List.prefix_append _ _)
  have payload :
      (fileLine file).drop 5 =
        List.intercalate (str "|") (fileFields file) :=
    List.drop_left' (by decide)
  have nonempty : fileLine file ≠ [] := by
    intro empty
    rw [empty] at isFile
    exact absurd isFile (by decide)
  simp only [loadLine, trimmed, if_neg nonempty, isFile, ↓reduceIte, payload,
    parseFileLine_fileFields storable]

/-- The `FILE` line of an entry comes in one piece. -/
theorem databasePieces_fileLine
    (storable : file.Storable)
    (behind : CString) :
    databasePieces (fileLine file ++ newline :: behind) =
      (fileLine file ++ [newline]) :: databasePieces behind :=
  boundedLines_of_fits storable.length_fileLine_lt
    (fun c member => by
      rw [decide_eq_false_iff_not]
      rintro rfl
      exact storable.newline_not_mem_fileLine member)
    (decide_eq_true rfl)

end FileMetadata.Storable

/-! ## The table read back -/

/--
What is read back of an entry.  The loop ends once the table is full, so the
access lists of an entry that fills it are not read.
-/
def FileMetadata.readBack
    (fillsTable : Bool)
    (document : Nat)
    (file : FileMetadata) : FileMetadata :=
  { file with
    readAccessUsers :=
      if fillsTable then [] else fileAclParseCsv (csv file.readAccessUsers)
    writeAccessUsers :=
      if fillsTable then [] else fileAclParseCsv (csv file.writeAccessUsers)
    document := document }

/-- What is read back of the entries from a position of the table on. -/
def entriesReadBack (position document : Nat) :
    List FileMetadata → List FileMetadata
  | [] =>
      []
  | file :: rest =>
      file.readBack (position + 1 = nsMaxFiles) document ::
        entriesReadBack (position + 1) (document + 1) rest

/-- An entry appended without its lists gets them from its two list lines. -/
theorem changeCurrent_addLoaded
    (file : FileMetadata)
    (document : Nat)
    (ns : NameServer) :
    ((Loading.mk true (addLoaded (file.unshared document) ns)).changeCurrent
        fun entry =>
          { entry with
            readAccessUsers :=
              fileAclParseCsv (csv file.readAccessUsers) }).changeCurrent
        (fun entry =>
          { entry with
            writeAccessUsers :=
              fileAclParseCsv (csv file.writeAccessUsers) }) =
      ⟨true, addLoaded (file.readBack false document) ns⟩ := by
  simp only [Loading.changeCurrent, addLoaded, fileIndexInsert,
    List.modifyLast_concat, FileMetadata.unshared, FileMetadata.readBack,
    Bool.false_eq_true, ↓reduceIte]

/-- The lines of an entry that does not fill the table. -/
theorem loadLines_entry
    {file : FileMetadata}
    (storable : file.Storable)
    {loading : Loading}
    (room : loading.ns.files.length + 1 < nsMaxFiles)
    (behind : CString) :
    loadLines (databasePieces (entryText file behind)) loading =
      loadLines (databasePieces behind)
        ⟨true,
          addLoaded (file.readBack false loading.ns.nextDocument)
            loading.ns⟩ := by
  have added :
      ∀ entry, (addLoaded entry loading.ns).files.length < nsMaxFiles := by
    intro entry
    simpa [addLoaded, fileIndexInsert] using room
  have addedReaders :
      ∀ entry change,
        ((Loading.mk true (addLoaded entry loading.ns)).changeCurrent
            change).ns.files.length < nsMaxFiles := by
    intro entry change
    simpa [Loading.changeCurrent, addLoaded, fileIndexInsert,
      List.modifyLast_concat] using room
  rw [entryText, storable.databasePieces_fileLine, loadLines,
    if_pos (Nat.lt_of_succ_lt room), storable.loadLine_fileLine, readLine,
    loadLines_listLine listLabel_read storable.readers (added _),
    loadLine_readLine storable.readers rfl, writeLine,
    loadLines_listLine listLabel_write storable.writers (addedReaders _ _),
    loadLine_writeLine storable.writers rfl, changeCurrent_addLoaded]

/-- The lines of the entry that fills the table. -/
theorem loadLines_lastEntry
    {file : FileMetadata}
    (storable : file.Storable)
    {loading : Loading}
    (full : loading.ns.files.length + 1 = nsMaxFiles)
    (behind : CString) :
    loadLines (databasePieces (entryText file behind)) loading =
      addLoaded (file.unshared loading.ns.nextDocument) loading.ns := by
  have room : loading.ns.files.length < nsMaxFiles := by omega
  have filled :
      ¬(addLoaded (file.unshared loading.ns.nextDocument)
          loading.ns).files.length < nsMaxFiles := by
    simp [addLoaded, fileIndexInsert, full]
  rw [entryText, storable.databasePieces_fileLine, loadLines, if_pos room,
    storable.loadLine_fileLine]
  generalize databasePieces _ = pieces
  cases pieces with
  | nil =>
      rfl
  | cons line rest =>
      rw [loadLines, if_neg filled]

/-- The lines of the table append what is read back of its entries. -/
theorem files_loadLines
    {files : List FileMetadata}
    (storable : ∀ file ∈ files, file.Storable)
    (loading : Loading)
    (room : loading.ns.files.length + files.length ≤ nsMaxFiles) :
    (loadLines (databasePieces (entriesText files)) loading).files =
      loading.ns.files ++
        entriesReadBack loading.ns.files.length loading.ns.nextDocument
          files := by
  induction files generalizing loading with
  | nil =>
      simp [entriesText, databasePieces, fgetsPieces, loadLines,
        entriesReadBack]
  | cons file rest inductionHypothesis =>
      have headStorable := storable file List.mem_cons_self
      rw [List.length_cons] at room
      rw [entriesText, entriesReadBack]
      rcases Nat.lt_or_ge (loading.ns.files.length + 1) nsMaxFiles with
        space | full
      · rw [loadLines_entry headStorable space,
          inductionHypothesis
            (fun other listed =>
              storable other (List.mem_cons_of_mem file listed))
            ⟨true, addLoaded _ loading.ns⟩
            (by
              simp only [addLoaded, fileIndexInsert, List.length_append,
                List.length_cons, List.length_nil]
              omega)]
        simp [addLoaded, fileIndexInsert, Nat.ne_of_lt space]
      · have filled : loading.ns.files.length + 1 = nsMaxFiles := by omega
        have noRest : rest = [] := List.eq_nil_of_length_eq_zero (by omega)
        rw [loadLines_lastEntry headStorable filled, noRest]
        simp [addLoaded, fileIndexInsert, filled, entriesReadBack,
          FileMetadata.readBack, FileMetadata.unshared]

/-- The loop begins behind the number of entries. -/
theorem nsLoadMetadata_saved
    {ns : NameServer}
    (room : ns.files.length ≤ nsMaxFiles)
    (fresh : NameServer) :
    nsLoadMetadata (some (nsSaveMetadata ns)) fresh =
      loadLines (databasePieces (entriesText ns.files))
        ⟨false, clearedTable fresh⟩ := by
  have short : (decimal ns.files.length).length < maxFieldSize * 2 - 1 := by
    have bound :=
      length_decimal_le (n := (ns.files.length : Int)) (by
        rw [nsMaxFiles] at room
        exact ⟨by omega, by omega⟩)
    rw [maxFieldSize]
    omega
  have pieces :
      databasePieces (nsSaveMetadata ns) =
        (decimal ns.files.length ++ [newline]) ::
          databasePieces (entriesText ns.files) :=
    boundedLines_of_fits short
      (fun c member => by
        rw [decide_eq_false_iff_not]
        rintro rfl
        exact not_mem_decimal (by decide) _ member)
      (decide_eq_true rfl)
  rw [databasePieces] at pieces
  simp only [nsLoadMetadata, pieces]

/-- What is read back of a saved table. -/
theorem files_nsLoadMetadata
    {ns : NameServer}
    (storable : ∀ file ∈ ns.files, file.Storable)
    (room : ns.files.length ≤ nsMaxFiles)
    (fresh : NameServer) :
    (nsLoadMetadata (some (nsSaveMetadata ns)) fresh).files =
      entriesReadBack 0 fresh.nextDocument ns.files := by
  have loaded :=
    files_loadLines storable ⟨false, clearedTable fresh⟩
      (by simpa [clearedTable] using room)
  rw [nsLoadMetadata_saved room]
  simpa only [clearedTable, List.nil_append, List.length_nil] using loaded

/-! ## When the table is the same -/

/-- An entry without the document that only the model knows. -/
def FileMetadata.printed (file : FileMetadata) : FileMetadata :=
  { file with document := 0 }

/-- Loading the saved table gives the table, and nobody new access. -/
structure RoundTrips (ns fresh : NameServer) : Prop where
  entries :
    (nsLoadMetadata (some (nsSaveMetadata ns)) fresh).files.map
        FileMetadata.printed =
      ns.files.map FileMetadata.printed
  nobodyNew :
    ∀ (index : Nat) (loaded saved : FileMetadata),
      (nsLoadMetadata (some (nsSaveMetadata ns)) fresh).files[index]? =
          some loaded →
        ns.files[index]? = some saved →
          ∀ user,
            (fileHasReadAccess loaded user = true →
                fileHasReadAccess saved user = true) ∧
              (fileHasWriteAccess loaded user = true →
                fileHasWriteAccess saved user = true)

/-- The texts of an entry's access lists fit the buffer. -/
def FileMetadata.ListsFit (file : FileMetadata) : Prop :=
  (csv file.readAccessUsers).length < maxFieldSize ∧
    (csv file.writeAccessUsers).length < maxFieldSize

/-- An entry is shared with nobody. -/
def FileMetadata.Private (file : FileMetadata) : Prop :=
  file.readAccessUsers = [] ∧ file.writeAccessUsers = []

/--
Every access list fits the buffer it is read through, and the last entry of a
full table is shared with nobody.
-/
structure FitsDatabase (files : List FileMetadata) : Prop where
  lists : ∀ file ∈ files, file.ListsFit
  last :
    files.length = nsMaxFiles → ∀ file ∈ files.getLast?, file.Private

theorem printed_readBack_iff
    {file : FileMetadata}
    (storable : file.Storable)
    (fillsTable : Bool)
    (document : Nat) :
    (file.readBack fillsTable document).printed = file.printed ↔
      if fillsTable then file.Private else file.ListsFit := by
  have lists :
      (file.readBack fillsTable document).printed = file.printed ↔
        (file.readBack fillsTable document).readAccessUsers =
            file.readAccessUsers ∧
          (file.readBack fillsTable document).writeAccessUsers =
            file.writeAccessUsers := by
    simp [FileMetadata.printed, FileMetadata.readBack]
  rw [lists]
  cases fillsTable with
  | true =>
      simp only [FileMetadata.readBack, FileMetadata.Private, ↓reduceIte]
      exact ⟨fun same => ⟨same.1.symm, same.2.symm⟩,
        fun none => ⟨none.1.symm, none.2.symm⟩⟩
  | false =>
      simp only [FileMetadata.readBack, FileMetadata.ListsFit,
        Bool.false_eq_true, ↓reduceIte,
        fileAclParseCsv_eq_iff storable.readers,
        fileAclParseCsv_eq_iff storable.writers]

theorem listsFit_of_private
    {file : FileMetadata}
    (unshared : file.Private) :
    file.ListsFit := by
  rw [FileMetadata.ListsFit, unshared.1, unshared.2]
  decide

/-- The entries from a position on are read back exactly if they fit. -/
theorem printed_entriesReadBack_iff
    {files : List FileMetadata}
    (storable : ∀ file ∈ files, file.Storable)
    {position : Nat}
    (room : position + files.length ≤ nsMaxFiles)
    (document : Nat) :
    (entriesReadBack position document files).map FileMetadata.printed =
        files.map FileMetadata.printed ↔
      (∀ file ∈ files, file.ListsFit) ∧
        (position + files.length = nsMaxFiles →
          ∀ file ∈ files.getLast?, file.Private) := by
  induction files generalizing position document with
  | nil =>
      simp [entriesReadBack]
  | cons file rest inductionHypothesis =>
      have headStorable := storable file List.mem_cons_self
      have restStorable : ∀ other ∈ rest, other.Storable :=
        fun other listed => storable other (List.mem_cons_of_mem file listed)
      rw [List.length_cons] at room
      have recursive :=
        @inductionHypothesis restStorable (position + 1) (by omega)
          (document + 1)
      have headIff :=
        printed_readBack_iff headStorable (position + 1 = nsMaxFiles) document
      simp only [entriesReadBack, List.map_cons, List.cons.injEq, recursive,
        headIff, decide_eq_true_eq, List.length_cons, List.forall_mem_cons]
      cases rest with
      | nil =>
          simp only [List.length_nil, Nat.add_zero, Nat.zero_add,
            List.getLast?_singleton, Option.mem_def, Option.some.injEq,
            forall_eq', List.not_mem_nil, false_imp_iff, implies_true,
            List.getLast?_nil, reduceCtorEq, and_true, and_self]
          split
          · next fills =>
            exact ⟨fun unshared =>
              ⟨listsFit_of_private unshared, fun _ => unshared⟩,
              fun both => both.2 fills⟩
          · next space =>
            exact ⟨fun fits => ⟨fits, fun fills => absurd fills space⟩,
              fun both => both.1⟩
      | cons next later =>
          have space : position + 1 ≠ nsMaxFiles := by
            rw [List.length_cons] at room
            omega
          have sum :
              position + 1 + (next :: later).length =
                position + ((next :: later).length + 1) := by
            omega
          rw [if_neg space, List.getLast?_cons_cons, sum, and_assoc]

/-- A saved table is reproduced exactly if it fits the buffers. -/
theorem roundTrips_iff_fitsDatabase
    {ns : NameServer}
    (storable : ∀ file ∈ ns.files, file.Storable)
    (room : ns.files.length ≤ nsMaxFiles)
    (fresh : NameServer) :
    RoundTrips ns fresh ↔ FitsDatabase ns.files := by
  have entriesIff :=
    @printed_entriesReadBack_iff ns.files storable 0 (by omega)
      fresh.nextDocument
  rw [← files_nsLoadMetadata storable room, Nat.zero_add] at entriesIff
  constructor
  · intro trips
    obtain ⟨lists, last⟩ := entriesIff.mp trips.entries
    exact ⟨lists, last⟩
  · intro fits
    have entries := entriesIff.mpr ⟨fits.lists, fits.last⟩
    refine ⟨entries, fun index loaded saved atLoaded atSaved user => ?_⟩
    have same : loaded.printed = saved.printed := by
      have bothAt := congrArg (fun list => list[index]?) entries
      simpa [List.getElem?_map, atLoaded, atSaved] using bothAt
    have readers : fileHasReadAccess loaded.printed user =
        fileHasReadAccess saved.printed user := by rw [same]
    have writers : fileHasWriteAccess loaded.printed user =
        fileHasWriteAccess saved.printed user := by rw [same]
    exact ⟨fun given => readers ▸ given, fun given => writers ▸ given⟩

/-- An entry of a document. -/
def planEntry : FileMetadata where
  filename := str "plan.txt"
  filename_short := by decide
  owner := str "alice"
  ssIp := str "10.0.0.2"
  ssPort := 9001
  size := 120
  wordCount := 20
  charCount := 95
  isDirectory := false
  created := 1700000000
  modified := 1700000100
  lastAccess := 1700000200
  lastAccessUser := str "bob"
  lastModifiedUser := []
  readAccessUsers := []
  writeAccessUsers := []
  document := 7

theorem storable_planEntry : planEntry.Storable where
  filename_valid := by decide
  filename_oneLine := by decide
  owner_valid := Or.inr (by decide)
  ssIp_short := by decide
  ssIp_plain := by decide +kernel
  ssPort_fits := ⟨by decide, by decide⟩
  size_fits := ⟨by decide, by decide⟩
  wordCount_fits := ⟨by decide, by decide⟩
  charCount_fits := ⟨by decide, by decide⟩
  created_fits := ⟨by decide, by decide⟩
  modified_fits := ⟨by decide, by decide⟩
  lastAccess_fits := ⟨by decide, by decide⟩
  lastAccessUser_valid := Or.inr (by decide)
  lastModifiedUser_valid := Or.inl rfl
  readers := ⟨by decide, by decide, by decide⟩
  writers := ⟨by decide, by decide, by decide⟩

/-- A name server with one document, shared with given readers. -/
def sharedTable (readers : List CString) : NameServer :=
  { nsInit with files := [{ planEntry with readAccessUsers := readers }] }

theorem storable_sharedTable
    {readers : List CString}
    (list : UserList readers) :
    ∀ file ∈ (sharedTable readers).files, file.Storable := by
  intro file listed
  rw [List.mem_singleton.mp listed]
  exact { storable_planEntry with readers := list }

/-- A table with short lists survives. -/
theorem roundTrips_shortLists :
    RoundTrips (sharedTable [str "bob", str "carol"]) nsInit := by
  have list : UserList [str "bob", str "carol"] :=
    ⟨by decide, by decide, by decide⟩
  refine
    (roundTrips_iff_fitsDatabase (storable_sharedTable list) (by decide)
      nsInit).mpr ⟨?_, fun full => absurd full (by decide)⟩
  intro file listed
  rw [List.mem_singleton.mp listed]
  exact ⟨by decide, by decide⟩

/-- A list that is cut inside its last name is read with the cut name. -/
theorem fileAclParseCsv_cut
    {front : List CString}
    {name : CString}
    (list : UserList (front ++ [name]))
    (atEnd : (csv (front ++ [name])).length = maxFieldSize - 1)
    (more : CString) :
    fileAclParseCsv (csv (front ++ [name ++ more])) = front ++ [name] := by
  have longer :
      csv (front ++ [name ++ more]) = csv (front ++ [name]) ++ more :=
    intercalate_append_last (CChar.ofChar ',') front name more
  have short : (csv (front ++ [name])).length < maxFieldSize := by
    rw [atEnd]
    decide
  have cut :
      safeStrcpy (csv (front ++ [name]) ++ more) maxFieldSize =
        safeStrcpy (csv (front ++ [name])) maxFieldSize := by
    rw [safeStrcpy, ← atEnd, List.take_left, safeStrcpy_of_short short]
  rw [longer, fileAclParseCsv, cut]
  exact fileAclParseCsv_of_fits list short

/-- Sixteen long names, which fill the buffer but for three characters. -/
def longNames : List CString :=
  ((str "abcdefghijklmno").map fun c => c :: List.replicate 254 c) ++
    [List.replicate 251 (CChar.ofChar 'p')]

theorem userList_longNames (user : CString)
    (isBob : user = str "bob" ∨ user = str "bobby") :
    UserList (longNames ++ [user]) := by
  rcases isBob with rfl | rfl
  · exact ⟨by decide +kernel, by decide +kernel, by decide⟩
  · exact ⟨by decide +kernel, by decide +kernel, by decide⟩

/-- After `bobby` was given access, a restart gives it to `bob` instead. -/
theorem access_shifted_longList :
    (∀ file ∈ (sharedTable (longNames ++ [str "bobby"])).files,
        file.Storable ∧ fileHasReadAccess file (str "bob") = false) ∧
      (∀ file ∈
          (nsLoadMetadata
            (some (nsSaveMetadata (sharedTable (longNames ++ [str "bobby"]))))
            nsInit).files,
        fileHasReadAccess file (str "bob") = true) ∧
      ¬RoundTrips (sharedTable (longNames ++ [str "bobby"])) nsInit := by
  have storable :=
    storable_sharedTable (userList_longNames (str "bobby") (Or.inr rfl))
  have before :
      ∀ file ∈ (sharedTable (longNames ++ [str "bobby"])).files,
        fileHasReadAccess file (str "bob") = false := by
    intro file listed
    rw [List.mem_singleton.mp listed]
    decide +kernel
  have cut :
      fileAclParseCsv (csv (longNames ++ [str "bobby"])) =
        longNames ++ [str "bob"] :=
    fileAclParseCsv_cut (userList_longNames (str "bob") (Or.inl rfl))
      (by decide +kernel) (str "by")
  have loaded := files_nsLoadMetadata storable (by decide) nsInit
  have after :
      ∀ file ∈
          (nsLoadMetadata
            (some (nsSaveMetadata (sharedTable (longNames ++ [str "bobby"]))))
            nsInit).files,
        fileHasReadAccess file (str "bob") = true := by
    rw [loaded]
    intro file listed
    rw [List.mem_singleton.mp listed]
    simp only [FileMetadata.readBack, fileHasReadAccess, cut]
    decide +kernel
  refine ⟨fun file listed => ⟨storable file listed, before file listed⟩,
    after, fun trips => ?_⟩
  have kept := trips.nobodyNew 0
  rw [loaded] at kept after
  have gained :=
    (kept _ _ rfl rfl (str "bob")).1 (after _ List.mem_cons_self)
  rw [before _ List.mem_cons_self] at gained
  exact absurd gained (by decide)

end DistributedDocs
