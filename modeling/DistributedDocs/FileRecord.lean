import DistributedDocs.CString
import DistributedDocs.Disk

namespace DistributedDocs

/-!
# File records

The in-memory record of a document, the four kinds of paths derived from its
logical name, and the text of its `.meta` sidecar.
-/

/-- `CheckpointRecord` -/
structure CheckpointRecord where
  tag : CString
  filepath : CString
  deriving DecidableEq

/--
`FileRecord`, less its lock, its list link and the unused `migrating`.
`address` stands for the address of the record, which sessions refer to.
-/
structure FileRecord where
  address : Nat
  filename : CString
  filename_short : filename.length < maxFilenameLength
  physicalName : CString
  filepath : CString
  metapath : CString
  undopath : CString
  owner : CString
  readUsers : List CString
  writeUsers : List CString
  created : Int
  modified : Int
  lastAccess : Int
  lastAccessUser : CString
  undoAvailable : Int
  checkpoints : List CheckpointRecord
  deriving DecidableEq

/-- `SS_MAX_CHECKPOINTS` -/
def ssMaxCheckpoints : Nat :=
  32

/-! ## Paths -/

/-- `build_path` for buffers of `MAX_PATH_LENGTH` bytes. -/
def buildPath (base file : CString) : Option CString :=
  let path := base ++ str "/" ++ file
  if path.length ≥ maxPathLength then none else some path

theorem length_lt_of_buildPath
    {base file path : CString}
    (built : buildPath base file = some path) :
    path.length < maxPathLength := by
  simp only [buildPath, ge_iff_le, Option.ite_none_left_eq_some, not_le]
    at built
  obtain ⟨short, same⟩ := built
  rw [← Option.some.inj same]
  exact short

/-- `flatten_logical_path` -/
def flattenLogicalPath (logical : CString) (size : Nat) : Option CString :=
  if logical.length ≥ size then
    none
  else
    some (logical.map fun c =>
      if c = CChar.ofChar '/' then CChar.ofChar '_' else c)

/-- `SS_META_SUFFIX` -/
def ssMetaSuffix : CString :=
  str ".meta"

/-- `SS_UNDO_SUFFIX` -/
def ssUndoSuffix : CString :=
  str ".undo"

/-- The physical name `ss_set_record_paths` gives to a logical name. -/
def physicalNameOf (logicalName : CString) : CString :=
  match flattenLogicalPath logicalName maxFilenameLength with
  | some physical => physical
  | none => safeStrcpy logicalName maxFilenameLength

theorem length_physicalNameOf (logicalName : CString) :
    (physicalNameOf logicalName).length < maxFilenameLength := by
  unfold physicalNameOf flattenLogicalPath
  split
  · next physical flattened =>
    simp only [ge_iff_le, Option.ite_none_left_eq_some, not_le] at flattened
    obtain ⟨short, same⟩ := flattened
    rw [← Option.some.inj same, List.length_map]
    exact short
  · exact length_safeStrcpy_filename logicalName

/-- The content path of a logical name. -/
def contentPath (storagePath logicalName : CString) : CString :=
  storagePath ++ str "/" ++ physicalNameOf logicalName

theorem buildPath_of_short
    {base file : CString}
    (baseShort : base.length ≤ maxTagLength)
    (fileShort : file.length ≤ 3000) :
    buildPath base file = some (base ++ str "/" ++ file) := by
  have slash : (str "/").length = 1 := by decide
  rw [buildPath, if_neg]
  simp only [maxTagLength, maxPathLength, List.length_append, slash] at *
  omega

theorem buildPath_physicalNameOf
    {storagePath : CString}
    (short : storagePath.length ≤ maxTagLength)
    (logicalName : CString) :
    buildPath storagePath (physicalNameOf logicalName) =
      some (contentPath storagePath logicalName) := by
  have nameShort := length_physicalNameOf logicalName
  rw [maxFilenameLength] at nameShort
  exact buildPath_of_short short (by omega)

theorem length_contentPath
    {storagePath : CString}
    (short : storagePath.length ≤ maxTagLength)
    (logicalName : CString) :
    (contentPath storagePath logicalName).length ≤ 1000 := by
  have nameShort := length_physicalNameOf logicalName
  have slash : (str "/").length = 1 := by decide
  simp only [contentPath, List.length_append, slash, maxFilenameLength,
    maxTagLength] at *
  omega

/-- `ss_set_record_paths`; a path that does not fit becomes empty. -/
def ssSetRecordPaths
    (storagePath : CString)
    (rec : FileRecord)
    (logicalName : CString) : FileRecord :=
  let physicalName := physicalNameOf logicalName
  let metaName := snprintf (maxFilenameLength + 8) (physicalName ++ ssMetaSuffix)
  let undoName := snprintf (maxFilenameLength + 8) (physicalName ++ ssUndoSuffix)
  { rec with
    filename := safeStrcpy logicalName maxFilenameLength
    filename_short := length_safeStrcpy_filename logicalName
    physicalName := physicalName
    filepath := (buildPath storagePath physicalName).getD []
    metapath := (buildPath storagePath metaName).getD []
    undopath := (buildPath storagePath undoName).getD [] }

/-- `ss_init_file_record` for a record allocated at `address`. -/
def ssInitFileRecord
    (storagePath : CString)
    (address : Nat)
    (filename : CString) : FileRecord :=
  ssSetRecordPaths storagePath
    { address := address
      filename := []
      filename_short := by decide
      physicalName := []
      filepath := []
      metapath := []
      undopath := []
      owner := []
      readUsers := []
      writeUsers := []
      created := 0
      modified := 0
      lastAccess := 0
      lastAccessUser := []
      undoAvailable := 0
      checkpoints := [] }
    filename

/-- The record's paths are those of its logical name. -/
structure FileRecord.WellPlaced
    (storagePath : CString)
    (rec : FileRecord) : Prop where
  filepath_eq : rec.filepath = contentPath storagePath rec.filename
  metapath_eq : rec.metapath = rec.filepath ++ ssMetaSuffix
  undopath_eq : rec.undopath = rec.filepath ++ ssUndoSuffix

/-- `ss_set_record_paths` puts a record where its name says. -/
theorem wellPlaced_ssSetRecordPaths
    {storagePath logicalName : CString}
    (short : storagePath.length ≤ maxTagLength)
    (nameShort : logicalName.length < maxFilenameLength)
    (rec : FileRecord) :
    (ssSetRecordPaths storagePath rec logicalName).WellPlaced
      storagePath := by
  have physicalShort := length_physicalNameOf logicalName
  have sidecar :
      ∀ suffix : CString, suffix.length ≤ 5 →
        (buildPath storagePath
            (snprintf (maxFilenameLength + 8)
              (physicalNameOf logicalName ++ suffix))).getD [] =
          contentPath storagePath logicalName ++ suffix := by
    intro suffix suffixShort
    rw [maxFilenameLength] at physicalShort
    have fits :
        (physicalNameOf logicalName ++ suffix).length <
          maxFilenameLength + 8 := by
      rw [List.length_append, maxFilenameLength]
      omega
    rw [snprintf_of_short fits, buildPath_of_short short (by
      rw [List.length_append]
      omega)]
    simp [contentPath]
  have content :
      (buildPath storagePath (physicalNameOf logicalName)).getD [] =
        contentPath storagePath logicalName := by
    rw [buildPath_physicalNameOf short]
    rfl
  refine ⟨?_, ?_, ?_⟩
  · simp only [ssSetRecordPaths, content, safeStrcpy_of_short nameShort]
  · simp only [ssSetRecordPaths, content]
    exact sidecar ssMetaSuffix (by decide)
  · simp only [ssSetRecordPaths, content]
    exact sidecar ssUndoSuffix (by decide)

/-- The paths a record has in use. -/
def FileRecord.paths (rec : FileRecord) : List CString :=
  [rec.filepath, rec.metapath, rec.undopath] ++
    rec.checkpoints.map CheckpointRecord.filepath

/-! ## Checkpoints -/

/-- `ss_sanitize_tag` into a buffer of `size` bytes. -/
def ssSanitizeTag (tag : CString) (size : Nat) : CString :=
  (tag.take (size - 1)).map fun c =>
    if isalnum c || c == CChar.ofChar '_' || c == CChar.ofChar '-' then c
    else if !isspace c then CChar.ofChar '_'
    else CChar.ofChar '-'

/-- `ss_find_checkpoint` -/
def ssFindCheckpoint
    (rec : FileRecord)
    (tag : CString) : Option CheckpointRecord :=
  if tag = [] then
    none
  else
    rec.checkpoints.find? fun ckpt =>
      strncmpEq ckpt.tag tag maxFilenameLength

/-- The path of a checkpoint taken at `now`, as the handler builds it. -/
def checkpointPath
    (storagePath : CString)
    (rec : FileRecord)
    (now : Int)
    (tag : CString) : Option CString :=
  let sanitized := ssSanitizeTag tag maxTagLength
  let label := if sanitized = [] then str "checkpoint" else sanitized
  buildPath storagePath
    (snprintf (maxFilenameLength + maxTagLength + 32)
      (rec.filename ++ str ".ckpt_" ++ decimal now ++ str "_" ++ label))

theorem dot_not_mem_ssSanitizeTag (tag : CString) (size : Nat) :
    CChar.ofChar '.' ∉ ssSanitizeTag tag size := by
  intro member
  obtain ⟨c, _, same⟩ := List.mem_map.mp member
  split at same
  · next kept =>
    rw [same] at kept
    exact absurd kept (by decide)
  · split at same
    · exact absurd same (by decide)
    · exact absurd same (by decide)

/-- What follows the last occurrence of an element is determined. -/
theorem tail_eq_of_append_cons_eq {α : Type} [DecidableEq α]
    {first second : List α}
    {separator : α}
    {firstTail secondTail : List α}
    (firstFree : separator ∉ firstTail)
    (secondFree : separator ∉ secondTail)
    (same :
      first ++ separator :: firstTail = second ++ separator :: secondTail) :
    firstTail = secondTail := by
  have behindLast :
      ∀ front tail : List α, separator ∉ tail →
        (front ++ separator :: tail).reverse.takeWhile (· ≠ separator) =
          tail.reverse := by
    intro front tail free
    have all : ∀ c ∈ tail.reverse, decide (c ≠ separator) = true := by
      intro c member
      simp only [decide_eq_true_eq]
      rintro rfl
      exact free (List.mem_reverse.mp member)
    rw [List.reverse_append, List.reverse_cons, List.append_assoc,
      List.takeWhile_append_of_pos all]
    simp
  have reversed :=
    congrArg (fun text => text.reverse.takeWhile (· ≠ separator)) same
  rw [behindLast _ _ firstFree, behindLast _ _ secondFree] at reversed
  exact List.reverse_injective reversed

/-- A snapshot is never kept at an undo path. -/
theorem checkpointPath_ne_undo
    {storagePath : CString}
    {rec : FileRecord}
    {now : Int}
    {tag ckptPath : CString}
    (built : checkpointPath storagePath rec now tag = some ckptPath)
    (path : CString) :
    ckptPath ≠ path ++ ssUndoSuffix := by
  simp only [checkpointPath, buildPath, Option.ite_none_left_eq_some,
    Option.some.injEq] at built
  obtain ⟨_, rfl⟩ := built
  generalize labelEq :
    (if ssSanitizeTag tag maxTagLength = [] then str "checkpoint"
      else ssSanitizeTag tag maxTagLength) = label
  have labelFree : CChar.ofChar '.' ∉ label := by
    rw [← labelEq]
    split
    · decide
    · exact dot_not_mem_ssSanitizeTag _ _
  generalize stampEq : decimal now ++ str "_" ++ label = stamp
  have stampFree : CChar.ofChar '.' ∉ stamp := by
    rw [← stampEq]
    simp only [List.mem_append, not_or]
    exact ⟨⟨dot_not_mem_decimal now, by decide⟩, labelFree⟩
  have nameShort := rec.filename_short
  have marker : str ".ckpt_" = CChar.ofChar '.' :: str "ckpt_" := by
    decide
  have suffix : ssUndoSuffix = CChar.ofChar '.' :: str "undo" := by
    decide
  have cut :
      snprintf (maxFilenameLength + maxTagLength + 32)
          (rec.filename ++ str ".ckpt_" ++ decimal now ++ str "_" ++
            label) =
        rec.filename ++ CChar.ofChar '.' ::
          (str "ckpt_" ++
            stamp.take (671 - (rec.filename ++ str ".ckpt_").length)) := by
    have short : (rec.filename ++ str ".ckpt_").length ≤ 671 := by
      have markerLength : (str ".ckpt_").length = 6 := by decide
      rw [List.length_append, markerLength]
      rw [maxFilenameLength] at nameShort
      omega
    have whole :
        rec.filename ++ str ".ckpt_" ++ decimal now ++ str "_" ++ label =
          (rec.filename ++ str ".ckpt_") ++ stamp := by
      rw [← stampEq]
      simp
    rw [whole, snprintf]
    have size : maxFilenameLength + maxTagLength + 32 - 1 = 671 := rfl
    rw [size, List.take_append, List.take_of_length_le short]
    nth_rewrite 1 [marker]
    simp
  intro same
  rw [cut, suffix, ← List.append_assoc] at same
  have tails :=
    tail_eq_of_append_cons_eq
      (by
        simp only [List.mem_append, not_or]
        exact ⟨by decide, fun member =>
          stampFree (List.mem_of_mem_take member)⟩)
      (by decide) same
  have lengths := congrArg List.length tails
  have ckptLength : (str "ckpt_").length = 5 := by decide
  have undoLength : (str "undo").length = 4 := by decide
  rw [List.length_append, ckptLength, undoLength] at lengths
  omega

/-! ## Access -/

/-- `ss_check_read_access` -/
def ssCheckReadAccess (rec : FileRecord) (user : CString) : Bool :=
  (rec.owner ≠ [] && strncmpEq rec.owner user maxUsernameLength) ||
    (rec.readUsers.any fun reader =>
      strncmpEq reader user maxUsernameLength) ||
    rec.writeUsers.any fun writer => strncmpEq writer user maxUsernameLength

/-- `ss_check_write_access` -/
def ssCheckWriteAccess (rec : FileRecord) (user : CString) : Bool :=
  (rec.owner ≠ [] && strncmpEq rec.owner user maxUsernameLength) ||
    rec.writeUsers.any fun writer =>
      strncmpEq writer user maxUsernameLength

/-! ## The metadata sidecar -/

/-- The text `ss_write_metadata` prints. -/
def metadataText (rec : FileRecord) : CString :=
  let newline := str "\n"
  str "LOGICAL=" ++ rec.filename ++ newline ++
    str "OWNER=" ++ rec.owner ++ newline ++
    str "CREATED=" ++ decimal rec.created ++ newline ++
    str "MODIFIED=" ++ decimal rec.modified ++ newline ++
    str "LAST_ACCESS=" ++ decimal rec.lastAccess ++ newline ++
    str "LAST_USER=" ++ rec.lastAccessUser ++ newline ++
    str "UNDO=" ++ decimal rec.undoAvailable ++ newline ++
    str "READ=" ++ List.intercalate (str ",") rec.readUsers ++ newline ++
    str "WRITE=" ++ List.intercalate (str ",") rec.writeUsers ++ newline ++
    (rec.checkpoints.take ssMaxCheckpoints).flatMap fun ckpt =>
      str "CHECKPOINT=" ++ ckpt.tag ++ str ":" ++ ckpt.filepath ++ newline

/-- The fields `ss_touch_file_metadata` sets. -/
def FileRecord.touched
    (now : Int)
    (username : Option CString)
    (updateModified : Bool)
    (rec : FileRecord) : FileRecord :=
  { rec with
    lastAccess := now
    lastAccessUser :=
      match username with
      | some name => safeStrcpy name maxUsernameLength
      | none => rec.lastAccessUser
    modified := if updateModified then now else rec.modified }

@[simp] theorem FileRecord.address_touched
    (now : Int)
    (username : Option CString)
    (updateModified : Bool)
    (rec : FileRecord) :
    (rec.touched now username updateModified).address = rec.address :=
  rfl

@[simp] theorem FileRecord.paths_touched
    (now : Int)
    (username : Option CString)
    (updateModified : Bool)
    (rec : FileRecord) :
    (rec.touched now username updateModified).paths = rec.paths :=
  rfl

end DistributedDocs
