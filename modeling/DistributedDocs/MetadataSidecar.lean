import DistributedDocs.BoundedLines
import DistributedDocs.Numerals
import DistributedDocs.StorageControl
import DistributedDocs.UserLists

namespace DistributedDocs

/-!
# Metadata sidecars

`ss_write_metadata` prints a line for each field of a record, and
`ss_load_metadata` reads them back through a buffer of 1024 bytes.  The path
and the tag of a checkpoint stand on one line with a `:` between them.
-/

/-! ## Loading -/

/-- The record that is loaded, and the logical name its sidecar gives. -/
structure SidecarLoad where
  record : FileRecord
  logicalOverride : CString

/-- The loop over the tokens of a `READ=` or a `WRITE=` line. -/
def loadUsers (users : List CString) : List CString → List CString
  | [] =>
      users
  | token :: rest =>
      if users.length < ssMaxUsersPerFile then
        let trimmed := trimString token
        if trimmed ≠ [] then
          loadUsers (users ++ [safeStrcpy trimmed maxUsernameLength]) rest
        else
          loadUsers users rest
      else
        users

/-- The checkpoints with the one of a `CHECKPOINT=` line. -/
def loadCheckpoint
    (text : CString)
    (checkpoints : List CheckpointRecord) : List CheckpointRecord :=
  if checkpoints.length < ssMaxCheckpoints then
    match text.dropWhile fun c => c ≠ CChar.ofChar ':' with
    | [] => checkpoints
    | _ :: filepath =>
        let tag := text.takeWhile fun c => c ≠ CChar.ofChar ':'
        checkpoints ++
          [ { tag := safeStrcpy (trimString tag) maxFilenameLength
              filepath := safeStrcpy (trimString filepath) maxPathLength } ]
  else
    checkpoints

/-- The record being loaded with a change. -/
def SidecarLoad.change
    (load : SidecarLoad)
    (change : FileRecord → FileRecord) : SidecarLoad :=
  { load with record := change load.record }

/-- The body of the loop of `ss_load_metadata`. -/
def loadMetadataLine (load : SidecarLoad) (piece : CString) : SidecarLoad :=
  let line := trimString piece
  if (str "LOGICAL=").isPrefixOf line then
    { load with
      logicalOverride := safeStrcpy (line.drop 8) maxFilenameLength }
  else if (str "OWNER=").isPrefixOf line then
    load.change fun rec =>
      { rec with owner := safeStrcpy (line.drop 6) maxUsernameLength }
  else if (str "READ=").isPrefixOf line then
    load.change fun rec =>
      { rec with readUsers := loadUsers [] (strtok ',' (line.drop 5)) }
  else if (str "WRITE=").isPrefixOf line then
    load.change fun rec =>
      { rec with writeUsers := loadUsers [] (strtok ',' (line.drop 6)) }
  else if (str "CREATED=").isPrefixOf line then
    load.change fun rec => { rec with created := atoll (line.drop 8) }
  else if (str "MODIFIED=").isPrefixOf line then
    load.change fun rec => { rec with modified := atoll (line.drop 9) }
  else if (str "LAST_ACCESS=").isPrefixOf line then
    load.change fun rec => { rec with lastAccess := atoll (line.drop 12) }
  else if (str "LAST_USER=").isPrefixOf line then
    load.change fun rec =>
      { rec with
        lastAccessUser := safeStrcpy (line.drop 10) maxUsernameLength }
  else if (str "UNDO=").isPrefixOf line then
    load.change fun rec => { rec with undoAvailable := atoi (line.drop 5) }
  else if (str "CHECKPOINT=").isPrefixOf line then
    load.change fun rec =>
      { rec with
        checkpoints := loadCheckpoint (line.drop 11) rec.checkpoints }
  else
    load

/-- The buffer of `ss_load_metadata`. -/
def metadataLineSize : Nat :=
  1024

/-- The strings `fgets` leaves in the buffer, one after another. -/
def sidecarPieces (bytes : RawBytes) : List CString :=
  (boundedLines (fun byte => byte = newline.val) (metadataLineSize - 1)
    bytes).map cString

/-- `ss_load_metadata`, from the opened sidecar on. -/
def loadMetadata
    (storagePath : CString)
    (rec : FileRecord)
    (bytes : RawBytes) : FileRecord :=
  let cleared :=
    { rec with
      readUsers := []
      writeUsers := []
      undoAvailable := 0
      checkpoints := [] }
  let load := (sidecarPieces bytes).foldl loadMetadataLine ⟨cleared, []⟩
  if load.logicalOverride ≠ [] then
    ssSetRecordPaths storagePath load.record load.logicalOverride
  else
    load.record

/-! ## The lines of a sidecar -/

/-- Neither end of a text is white space. -/
structure SolidEnds (text : CString) : Prop where
  first : ∀ c ∈ text.head?, isspace c = false
  last : ∀ c ∈ text.getLast?, isspace c = false

theorem SolidEnds.trimString_eq
    {text : CString}
    (solid : SolidEnds text) :
    trimString text = text :=
  trimString_of_ends_solid solid.first solid.last

theorem solidEnds_of_all
    {text : CString}
    (solid : (text.all fun c => !isspace c) = true) :
    SolidEnds text := by
  have noSpace : ∀ c ∈ text, isspace c = false := by
    intro c member
    have tested := List.all_eq_true.mp solid c member
    simpa using tested
  exact
    { first := fun c isFirst => noSpace c (List.mem_of_mem_head? isFirst)
      last := fun c isLast => noSpace c (List.mem_of_mem_getLast? isLast) }

theorem solidEnds_of_validateUsername
    {user : CString}
    (valid : validateUsername user = true) :
    SolidEnds user := by
  apply solidEnds_of_all
  rw [List.all_eq_true]
  intro c member
  rw [isspace_of_isalnum ((validateUsername_iff.mp valid).2.2 c member)]
  rfl

theorem head_dropWhile_solid (text : CString) :
    ∀ c ∈ (text.dropWhile isspace).head?, isspace c = false := by
  intro c isFirst
  have kept := List.head?_dropWhile_not isspace text
  rw [Option.mem_def.mp isFirst] at kept
  exact kept

theorem solidEnds_trimString (text : CString) :
    SolidEnds (trimString text) := by
  constructor
  · intro c isFirst
    rw [trimString, List.head?_reverse] at isFirst
    have suffix :=
      List.dropWhile_suffix isspace (l := (text.dropWhile isspace).reverse)
    obtain ⟨front, whole⟩ := suffix
    apply head_dropWhile_solid text c
    rw [← List.getLast?_reverse, ← whole]
    rw [Option.mem_def] at isFirst ⊢
    rw [List.getLast?_append, isFirst]
    rfl
  · intro c isLast
    rw [trimString, List.getLast?_reverse] at isLast
    exact head_dropWhile_solid _ c isLast

/-- The line of a checkpoint. -/
def checkpointLine (ckpt : CheckpointRecord) : CString :=
  str "CHECKPOINT=" ++ (ckpt.tag ++ CChar.ofChar ':' :: ckpt.filepath)

/-- The lines of the fields a record has one of. -/
def fieldLines (rec : FileRecord) : List CString :=
  [ str "LOGICAL=" ++ rec.filename,
    str "OWNER=" ++ rec.owner,
    str "CREATED=" ++ decimal rec.created,
    str "MODIFIED=" ++ decimal rec.modified,
    str "LAST_ACCESS=" ++ decimal rec.lastAccess,
    str "LAST_USER=" ++ rec.lastAccessUser,
    str "UNDO=" ++ decimal rec.undoAvailable,
    str "READ=" ++ csv rec.readUsers,
    str "WRITE=" ++ csv rec.writeUsers ]

/-- The lines of a sidecar. -/
def metadataLines (rec : FileRecord) : List CString :=
  fieldLines rec ++
    (rec.checkpoints.take ssMaxCheckpoints).map checkpointLine

theorem metadataText_eq_lines (rec : FileRecord) :
    metadataText rec =
      (metadataLines rec).flatMap fun line => line ++ [newline] := by
  have lineEnd : str "\n" = [newline] := by decide
  have colon : str ":" = [CChar.ofChar ':'] := by decide
  unfold metadataText metadataLines fieldLines checkpointLine csv
  rw [lineEnd, colon]
  simp only [List.flatMap_cons, List.flatMap_map, List.append_assoc,
    List.nil_append, List.cons_append]

/-- Lines that fit the buffer are read one by one. -/
theorem sidecarPieces_lines
    {lines : List CString}
    (fits : ∀ line ∈ lines, line.length < metadataLineSize - 1)
    (oneLine : ∀ line ∈ lines, newline ∉ line) :
    sidecarPieces
        (rawBytes (lines.flatMap fun line => line ++ [newline])) =
      lines.map fun line => line ++ [newline] := by
  have solid :
      ∀ line ∈ lines, ∀ c ∈ line,
        decide (c.val = newline.val) = false := by
    intro line listed c member
    rw [decide_eq_false_iff_not]
    intro same
    rw [Subtype.ext same] at member
    exact oneLine line listed member
  have ended : decide (newline.val = newline.val) = true := by
    simp
  have pieces :=
    @boundedLines_lines CChar (fun c => c.val = newline.val)
      (metadataLineSize - 1) lines newline fits solid ended
  have read : ∀ line : CString, cString (line.map Subtype.val) = line :=
    cString_rawBytes
  rw [sidecarPieces, rawBytes, boundedLines_map, pieces, List.map_map]
  simp only [Function.comp_def, read, List.map_id']

/-! ## One line -/

/-- No white space is cut off a line that has a label. -/
theorem trimString_labelled
    {label text : CString}
    (labelSolid : SolidEnds label)
    (named : label ≠ [])
    (last : ∀ c ∈ text.getLast?, isspace c = false) :
    trimString (label ++ text ++ [newline]) = label ++ text := by
  apply trimString_append_space
  · rw [List.head?_append_of_ne_nil _ named]
    exact labelSolid.first
  · intro c isLast
    rw [List.getLast?_append] at isLast
    cases atEnd : text.getLast? with
    | none =>
        rw [atEnd, Option.none_or] at isLast
        exact labelSolid.last c isLast
    | some d =>
        rw [atEnd, Option.some_or] at isLast
        exact last c (atEnd ▸ isLast)
  · decide

/-- A line with another label does not have this one. -/
theorem isPrefixOf_append_of_apart
    {label other : CString}
    (apart : (label.isPrefixOf other || other.isPrefixOf label) = false)
    (text : CString) :
    label.isPrefixOf (other ++ text) = false := by
  rw [Bool.or_eq_false_iff] at apart
  rw [Bool.eq_false_iff, ne_eq, List.isPrefixOf_iff_prefix]
  intro isLabel
  rcases List.prefix_or_prefix_of_prefix isLabel
    (List.prefix_append other text) with shorter | longer
  · rw [← List.isPrefixOf_iff_prefix, apart.1] at shorter
    cases shorter
  · rw [← List.isPrefixOf_iff_prefix, apart.2] at longer
    cases longer

theorem isPrefixOf_append_self (label text : CString) :
    label.isPrefixOf (label ++ text) = true :=
  List.isPrefixOf_iff_prefix.mpr (List.prefix_append label text)

/-- Adding the users of a list that is not too long gives the list. -/
theorem loadUsers_of_valid
    {loaded users : List CString}
    (valid : ∀ user ∈ users, validateUsername user = true)
    (room : loaded.length + users.length ≤ ssMaxUsersPerFile) :
    loadUsers loaded users = loaded ++ users := by
  induction users generalizing loaded with
  | nil =>
      rw [loadUsers, List.append_nil]
  | cons user rest inductionHypothesis =>
      rw [List.forall_mem_cons] at valid
      rw [List.length_cons] at room
      obtain ⟨nonempty, short, _⟩ := validateUsername_iff.mp valid.1
      have recursive :=
        @inductionHypothesis (loaded ++ [user]) valid.2 (by
          rw [List.length_append, List.length_singleton]
          omega)
      rw [loadUsers, if_pos (by omega),
        trimString_of_validateUsername valid.1]
      simp only [ne_eq, nonempty, not_false_eq_true, ↓reduceIte,
        safeStrcpy_of_short short, recursive, List.append_assoc,
        List.singleton_append]

/-- A list of users a sidecar keeps. -/
structure RestorableUsers (label : CString) (users : List CString) : Prop where
  valid : ∀ user ∈ users, validateUsername user = true
  few : users.length ≤ ssMaxUsersPerFile
  fits : (label ++ csv users).length < metadataLineSize - 1

theorem RestorableUsers.loadUsers_eq
    {label : CString}
    {users : List CString}
    (restorable : RestorableUsers label users) :
    loadUsers [] (strtok ',' (csv users)) = users := by
  have nonempty : ∀ user ∈ users, user ≠ [] := fun user listed =>
    (validateUsername_iff.mp (restorable.valid user listed)).1
  have noComma : ∀ user ∈ users, CChar.ofChar ',' ∉ user :=
    fun user listed =>
      ne_of_validateUsername (restorable.valid user listed) (by decide)
  rw [strtok_csv nonempty noComma,
    loadUsers_of_valid restorable.valid
      (by simpa using restorable.few), List.nil_append]

/-- A checkpoint a sidecar keeps. -/
structure CheckpointRecord.Restorable (ckpt : CheckpointRecord) : Prop where
  tag_solid : SolidEnds ckpt.tag
  tag_plain : CChar.ofChar ':' ∉ ckpt.tag
  tag_short : ckpt.tag.length < maxFilenameLength
  filepath_solid : SolidEnds ckpt.filepath
  filepath_short : ckpt.filepath.length < maxPathLength
  oneLine : newline ∉ checkpointLine ckpt
  fits : (checkpointLine ckpt).length < metadataLineSize - 1

theorem CheckpointRecord.Restorable.loadCheckpoint_eq
    {ckpt : CheckpointRecord}
    (restorable : ckpt.Restorable)
    {checkpoints : List CheckpointRecord}
    (room : checkpoints.length < ssMaxCheckpoints) :
    loadCheckpoint (ckpt.tag ++ CChar.ofChar ':' :: ckpt.filepath)
        checkpoints =
      checkpoints ++ [ckpt] := by
  have plain : ∀ c ∈ ckpt.tag, decide (c ≠ CChar.ofChar ':') = true := by
    intro c member
    rw [decide_eq_true_eq]
    rintro rfl
    exact restorable.tag_plain member
  have tag :
      (ckpt.tag ++ CChar.ofChar ':' :: ckpt.filepath).takeWhile
          (fun c => c ≠ CChar.ofChar ':') = ckpt.tag := by
    rw [List.takeWhile_append_of_pos plain,
      List.takeWhile_cons_of_neg (by simp), List.append_nil]
  have filepath :
      (ckpt.tag ++ CChar.ofChar ':' :: ckpt.filepath).dropWhile
          (fun c => c ≠ CChar.ofChar ':') =
        CChar.ofChar ':' :: ckpt.filepath := by
    rw [List.dropWhile_append_of_pos plain,
      List.dropWhile_cons_of_neg (by simp)]
  rw [loadCheckpoint, if_pos room, filepath, tag]
  simp only [restorable.tag_solid.trimString_eq,
    restorable.filepath_solid.trimString_eq,
    safeStrcpy_of_short restorable.tag_short,
    safeStrcpy_of_short restorable.filepath_short]

/-! ## The whole sidecar -/

/-- A record a sidecar keeps. -/
structure FileRecord.Restorable
    (storagePath : CString)
    (rec : FileRecord) : Prop extends rec.WellPlaced storagePath where
  filename_nonempty : rec.filename ≠ []
  filename_oneLine : newline ∉ rec.filename
  filename_last : ∀ c ∈ rec.filename.getLast?, isspace c = false
  physicalName_eq : rec.physicalName = physicalNameOf rec.filename
  owner_valid : validateUsername rec.owner = true
  lastAccessUser_valid : validateUsername rec.lastAccessUser = true
  created_fits : FitsLongLong rec.created
  modified_fits : FitsLongLong rec.modified
  lastAccess_fits : FitsLongLong rec.lastAccess
  undoAvailable_fits : FitsInt rec.undoAvailable
  readers : RestorableUsers (str "READ=") rec.readUsers
  writers : RestorableUsers (str "WRITE=") rec.writeUsers
  checkpoints_few : rec.checkpoints.length ≤ ssMaxCheckpoints
  checkpoints : ∀ ckpt ∈ rec.checkpoints, ckpt.Restorable

theorem newline_not_mem_of_validateUsername
    {user : CString}
    (valid : validateUsername user = true) :
    newline ∉ user :=
  ne_of_validateUsername valid (by decide)

theorem newline_not_mem_csv
    {label : CString}
    {users : List CString}
    (restorable : RestorableUsers label users) :
    newline ∉ csv users := by
  intro member
  rcases mem_intercalate member with isComma | ⟨user, listed, inUser⟩
  · exact absurd isComma (by decide)
  · exact newline_not_mem_of_validateUsername
      (restorable.valid user listed) inUser

/-- A list of users ends with a user, unless it is empty. -/
theorem getLast_csv_solid
    {label : CString}
    {users : List CString}
    (restorable : RestorableUsers label users) :
    ∀ c ∈ (csv users).getLast?, isspace c = false := by
  intro c isLast
  rcases mem_intercalate (List.mem_of_mem_getLast? isLast) with
    rfl | ⟨user, listed, inUser⟩
  · decide
  · exact isspace_of_isalnum
      ((validateUsername_iff.mp (restorable.valid user listed)).2.2 c inUser)

theorem getLast_decimal_solid (n : Int) :
    ∀ c ∈ (decimal n).getLast?, isspace c = false := by
  intro c isLast
  cases spaced : isspace c with
  | false =>
      rfl
  | true =>
      apply absurd (List.mem_of_mem_getLast? isLast)
      apply not_mem_decimal
      rintro (rfl | digit)
      · exact absurd spaced (by decide)
      · simp only [digitValue?, Option.isSome_ite, UInt8.le_iff_toNat_le]
          at digit
        simp only [isspace, Bool.or_eq_true, Bool.and_eq_true, beq_iff_eq,
          decide_eq_true_eq, UInt8.le_iff_toNat_le, ← UInt8.toNat_inj]
          at spaced
        simp at digit spaced
        omega

namespace FileRecord.Restorable

variable
  {storagePath : CString}
  {rec : FileRecord}
  (restorable : rec.Restorable storagePath)

include restorable

/-- Every line fits the buffer and has no line end in it. -/
theorem line_of_mem
    {line : CString}
    (listed : line ∈ metadataLines rec) :
    line.length < metadataLineSize - 1 ∧ newline ∉ line := by
  have labelled :
      ∀ {label text : CString}, label.length ≤ 12 → newline ∉ label →
        text.length < maxFilenameLength → newline ∉ text →
          (label ++ text).length < metadataLineSize - 1 ∧
            newline ∉ label ++ text := by
    intro label text labelShort labelPlain textShort textPlain
    rw [List.length_append, List.mem_append, not_or, metadataLineSize]
    rw [maxFilenameLength] at textShort
    exact ⟨by omega, labelPlain, textPlain⟩
  have userShort :
      ∀ {user : CString}, validateUsername user = true →
        user.length < maxFilenameLength := by
    intro user valid
    have short := (validateUsername_iff.mp valid).2.1
    rw [maxUsernameLength] at short
    rw [maxFilenameLength]
    omega
  have numberShort :
      ∀ {n : Int}, FitsLongLong n → (decimal n).length < maxFilenameLength :=
    fun fits => Nat.lt_of_le_of_lt (length_decimal_le fits) (by decide)
  have numberPlain : ∀ n : Int, newline ∉ decimal n :=
    not_mem_decimal (by decide)
  have undoFits : FitsLongLong rec.undoAvailable := by
    obtain ⟨low, high⟩ := restorable.undoAvailable_fits
    exact ⟨by omega, by omega⟩
  have listLine :
      ∀ {label : CString} {users : List CString}, newline ∉ label →
        RestorableUsers label users →
          (label ++ csv users).length < metadataLineSize - 1 ∧
            newline ∉ label ++ csv users := by
    intro label users labelPlain users
    rw [List.mem_append, not_or]
    exact ⟨users.fits, labelPlain, newline_not_mem_csv users⟩
  have fields :
      ∀ field ∈ fieldLines rec,
        field.length < metadataLineSize - 1 ∧ newline ∉ field := by
    simp only [fieldLines, List.forall_mem_cons]
    exact
      ⟨labelled (by decide) (by decide) rec.filename_short
          restorable.filename_oneLine,
        labelled (by decide) (by decide) (userShort restorable.owner_valid)
          (newline_not_mem_of_validateUsername restorable.owner_valid),
        labelled (by decide) (by decide) (numberShort restorable.created_fits)
          (numberPlain _),
        labelled (by decide) (by decide)
          (numberShort restorable.modified_fits) (numberPlain _),
        labelled (by decide) (by decide)
          (numberShort restorable.lastAccess_fits) (numberPlain _),
        labelled (by decide) (by decide)
          (userShort restorable.lastAccessUser_valid)
          (newline_not_mem_of_validateUsername
            restorable.lastAccessUser_valid),
        labelled (by decide) (by decide) (numberShort undoFits)
          (numberPlain _),
        listLine (by decide) restorable.readers,
        listLine (by decide) restorable.writers, List.forall_mem_nil _⟩
  rcases List.mem_append.mp listed with isField | isCheckpoint
  · exact fields line isField
  · obtain ⟨ckpt, taken, rfl⟩ := List.mem_map.mp isCheckpoint
    have kept := restorable.checkpoints ckpt (List.mem_of_mem_take taken)
    exact ⟨kept.fits, kept.oneLine⟩

/-- The fields of which there is one each are read back. -/
theorem foldl_fieldLines (blank : FileRecord) :
    ((fieldLines rec).map fun line => line ++ [newline]).foldl
        loadMetadataLine ⟨blank, []⟩ =
      ⟨{ blank with
          owner := rec.owner
          readUsers := rec.readUsers
          writeUsers := rec.writeUsers
          created := rec.created
          modified := rec.modified
          lastAccess := rec.lastAccess
          lastAccessUser := rec.lastAccessUser
          undoAvailable := rec.undoAvailable },
        rec.filename⟩ := by
  have solid :
      ∀ {user : CString}, validateUsername user = true →
        ∀ c ∈ user.getLast?, isspace c = false :=
    fun valid => (solidEnds_of_validateUsername valid).last
  have ownerShort := (validateUsername_iff.mp restorable.owner_valid).2.1
  have userShort :=
    (validateUsername_iff.mp restorable.lastAccessUser_valid).2.1
  have trimmed :
      ∀ label : CString,
        (label.all fun c => !isspace c) = true → label ≠ [] →
          ∀ text : CString, (∀ c ∈ text.getLast?, isspace c = false) →
            trimString (label ++ text ++ [newline]) = label ++ text :=
    fun _ labelSolid named _ textLast =>
      trimString_labelled (solidEnds_of_all labelSolid) named textLast
  have filename :=
    trimmed (str "LOGICAL=") (by decide) (by decide) _
      restorable.filename_last
  have owner :=
    trimmed (str "OWNER=") (by decide) (by decide) _
      (solid restorable.owner_valid)
  have created :=
    trimmed (str "CREATED=") (by decide) (by decide) _
      (getLast_decimal_solid rec.created)
  have modified :=
    trimmed (str "MODIFIED=") (by decide) (by decide) _
      (getLast_decimal_solid rec.modified)
  have lastAccess :=
    trimmed (str "LAST_ACCESS=") (by decide) (by decide) _
      (getLast_decimal_solid rec.lastAccess)
  have lastUser :=
    trimmed (str "LAST_USER=") (by decide) (by decide) _
      (solid restorable.lastAccessUser_valid)
  have undo :=
    trimmed (str "UNDO=") (by decide) (by decide) _
      (getLast_decimal_solid rec.undoAvailable)
  have readers :=
    trimmed (str "READ=") (by decide) (by decide) _
      (getLast_csv_solid restorable.readers)
  have writers :=
    trimmed (str "WRITE=") (by decide) (by decide) _
      (getLast_csv_solid restorable.writers)
  simp (disch := decide) only [fieldLines, List.map_cons, List.map_nil,
    List.foldl_cons, List.foldl_nil, loadMetadataLine, filename, owner,
    created, modified, lastAccess, lastUser, undo, readers, writers,
    isPrefixOf_append_self, isPrefixOf_append_of_apart, List.drop_left',
    Bool.false_eq_true, ↓reduceIte, SidecarLoad.change,
    safeStrcpy_of_short rec.filename_short, safeStrcpy_of_short ownerShort,
    safeStrcpy_of_short userShort, restorable.readers.loadUsers_eq,
    restorable.writers.loadUsers_eq, atoll_decimal restorable.created_fits,
    atoll_decimal restorable.modified_fits,
    atoll_decimal restorable.lastAccess_fits,
    atoi_decimal restorable.undoAvailable_fits]

omit restorable in
/-- The checkpoints are read back one after another. -/
theorem foldl_checkpointLines
    {checkpoints : List CheckpointRecord}
    (kept : ∀ ckpt ∈ checkpoints, ckpt.Restorable)
    (load : SidecarLoad)
    (room :
      load.record.checkpoints.length + checkpoints.length ≤
        ssMaxCheckpoints) :
    ((checkpoints.map checkpointLine).map fun line =>
        line ++ [newline]).foldl loadMetadataLine load =
      load.change fun rec =>
        { rec with checkpoints := rec.checkpoints ++ checkpoints } := by
  induction checkpoints generalizing load with
  | nil =>
      simp only [List.map_nil, List.foldl_nil, List.append_nil]
      rfl
  | cons ckpt rest inductionHypothesis =>
      rw [List.forall_mem_cons] at kept
      rw [List.length_cons] at room
      have pathLast :
          ∀ c ∈ (ckpt.tag ++ CChar.ofChar ':' :: ckpt.filepath).getLast?,
            isspace c = false := by
        intro c isLast
        rw [List.getLast?_append_of_ne_nil _ (List.cons_ne_nil _ _),
          List.getLast?_cons] at isLast
        cases atEnd : ckpt.filepath.getLast? with
        | none =>
            rw [atEnd] at isLast
            rw [← Option.some.inj isLast]
            decide
        | some d =>
            rw [atEnd] at isLast
            exact kept.1.filepath_solid.last c (atEnd ▸ isLast)
      have trimmed :=
        @trimString_labelled (str "CHECKPOINT=") _
          (solidEnds_of_all (by decide)) (by decide) pathLast
      have loaded :
          loadMetadataLine load (checkpointLine ckpt ++ [newline]) =
            load.change fun rec =>
              { rec with checkpoints := rec.checkpoints ++ [ckpt] } := by
        have added :=
          kept.1.loadCheckpoint_eq
            (show load.record.checkpoints.length < ssMaxCheckpoints by omega)
        simp (disch := decide) only [checkpointLine, loadMetadataLine,
          trimmed, isPrefixOf_append_self, isPrefixOf_append_of_apart,
          List.drop_left', Bool.false_eq_true, ↓reduceIte,
          SidecarLoad.change, added]
      rw [List.map_cons, List.map_cons, List.foldl_cons, loaded,
        inductionHypothesis kept.2]
      · simp only [SidecarLoad.change, List.append_assoc,
          List.singleton_append]
      · simp only [SidecarLoad.change, List.length_append,
          List.length_singleton]
        omega

/-- The names and the paths of a record are made of its logical name. -/
theorem ssSetRecordPaths_eq
    (short : storagePath.length ≤ maxTagLength)
    (blank : FileRecord) :
    ssSetRecordPaths storagePath
        { rec with
          address := blank.address
          filename := blank.filename
          filename_short := blank.filename_short
          physicalName := blank.physicalName
          filepath := blank.filepath
          metapath := blank.metapath
          undopath := blank.undopath }
        rec.filename =
      { rec with address := blank.address } := by
  have placed :=
    wellPlaced_ssSetRecordPaths short rec.filename_short blank
  have name : safeStrcpy rec.filename maxFilenameLength = rec.filename :=
    safeStrcpy_of_short rec.filename_short
  have sameName :
      (ssSetRecordPaths storagePath blank rec.filename).filename =
        rec.filename :=
    name
  have filepath := placed.filepath_eq
  rw [sameName, ← restorable.filepath_eq] at filepath
  have metapath := placed.metapath_eq
  rw [filepath, ← restorable.metapath_eq] at metapath
  have undopath := placed.undopath_eq
  rw [filepath, ← restorable.undopath_eq] at undopath
  simp only [ssSetRecordPaths] at filepath metapath undopath ⊢
  simp only [name, filepath, metapath, undopath]
  simp only [← restorable.physicalName_eq]

/-- A record is read back from its sidecar, whatever it is read into. -/
theorem loadMetadata_metadataText
    (short : storagePath.length ≤ maxTagLength)
    (blank : FileRecord) :
    loadMetadata storagePath blank (rawBytes (metadataText rec)) =
      { rec with address := blank.address } := by
  have pieces :=
    sidecarPieces_lines
      (fun line listed => (restorable.line_of_mem listed).1)
      (fun line listed => (restorable.line_of_mem listed).2)
  have few :
      rec.checkpoints.take ssMaxCheckpoints = rec.checkpoints :=
    List.take_of_length_le restorable.checkpoints_few
  rw [loadMetadata, metadataText_eq_lines, pieces, metadataLines, few,
    List.map_append, List.foldl_append, restorable.foldl_fieldLines,
    foldl_checkpointLines restorable.checkpoints _
      (by simpa using restorable.checkpoints_few)]
  simp only [SidecarLoad.change, List.nil_append, ne_eq,
    restorable.filename_nonempty, not_false_eq_true, ↓reduceIte]
  exact restorable.ssSetRecordPaths_eq short blank

end FileRecord.Restorable

end DistributedDocs
