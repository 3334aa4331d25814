import DistributedDocs.StorageStartup
import DistributedDocs.StorageUsers

namespace DistributedDocs

/-!
# Records that are read back

A record can be restored as long as its name, its checkpoints and its lists of
users are read back as they are.  Here is what that takes of a new name, a new
checkpoint and a new user, and that it survives every other change.
-/

/-- The line fits the buffer of `ss_load_metadata`. -/
def FitsLine (line : CString) : Prop :=
  line.length < metadataLineSize - 1

instance (line : CString) : Decidable (FitsLine line) :=
  inferInstanceAs (Decidable (_ < _))

/-- A logical name that is read back as it is, and is that of a document. -/
structure RestorableName (name : CString) : Prop where
  oneLine : newline ∉ name
  last : ∀ c ∈ name.getLast?, isspace c = false
  document : isDocumentName (physicalNameOf name) = true

instance (name : CString) : Decidable (RestorableName name) :=
  decidable_of_iff
    (newline ∉ name ∧ (name.getLast?.all fun c => !isspace c) = true ∧
      isDocumentName (physicalNameOf name) = true) (by
    simp only [Option.all_eq_true, Bool.not_eq_true']
    constructor
    · rintro ⟨oneLine, last, document⟩
      exact ⟨oneLine, last, document⟩
    · rintro ⟨oneLine, last, document⟩
      exact ⟨oneLine, last, document⟩)

/-- A tag and a path that are read back from one line. -/
structure PlainCheckpoint (tag path : CString) : Prop where
  tag_plain : CChar.ofChar ':' ∉ tag
  tag_oneLine : newline ∉ tag
  path_solid : trimString path = path
  path_oneLine : newline ∉ path

instance (tag path : CString) : Decidable (PlainCheckpoint tag path) :=
  decidable_of_iff
    (CChar.ofChar ':' ∉ tag ∧ newline ∉ tag ∧ trimString path = path ∧
      newline ∉ path)
    ⟨fun ⟨plain, oneLine, solid, pathOneLine⟩ =>
        ⟨plain, oneLine, solid, pathOneLine⟩,
      fun ⟨plain, oneLine, solid, pathOneLine⟩ =>
        ⟨plain, oneLine, solid, pathOneLine⟩⟩

/-! ## Records that are changed in place -/

namespace FileRecord.Restorable

variable
  {storagePath : CString}
  {rec : FileRecord}
  (restorable : rec.Restorable storagePath)

include restorable

/-- All that changes without a rename. -/
theorem updated
    {readUsers writeUsers : List CString}
    {modified lastAccess undoAvailable : Int}
    {lastAccessUser : CString}
    {checkpoints : List CheckpointRecord}
    (readers : RestorableUsers (str "READ=") readUsers)
    (writers : RestorableUsers (str "WRITE=") writeUsers)
    (modified_fits : FitsLongLong modified)
    (lastAccess_fits : FitsLongLong lastAccess)
    (lastAccessUser_valid : validateUsername lastAccessUser = true)
    (undoAvailable_fits : FitsInt undoAvailable)
    (few : checkpoints.length ≤ ssMaxCheckpoints)
    (kept : ∀ ckpt ∈ checkpoints, ckpt.Restorable) :
    FileRecord.Restorable storagePath
      { rec with
        readUsers := readUsers
        writeUsers := writeUsers
        modified := modified
        lastAccess := lastAccess
        lastAccessUser := lastAccessUser
        undoAvailable := undoAvailable
        checkpoints := checkpoints } where
  filepath_eq := restorable.filepath_eq
  metapath_eq := restorable.metapath_eq
  undopath_eq := restorable.undopath_eq
  filename_nonempty := restorable.filename_nonempty
  filename_oneLine := restorable.filename_oneLine
  filename_last := restorable.filename_last
  physicalName_eq := restorable.physicalName_eq
  owner_valid := restorable.owner_valid
  lastAccessUser_valid := lastAccessUser_valid
  created_fits := restorable.created_fits
  modified_fits := modified_fits
  lastAccess_fits := lastAccess_fits
  undoAvailable_fits := undoAvailable_fits
  readers := readers
  writers := writers
  checkpoints_few := few
  checkpoints := kept

theorem touched
    {now : Int}
    {username : Option CString}
    {updateModified : Bool}
    (time : FitsLongLong now)
    (user :
      validateUsername
        (rec.touched now username updateModified).lastAccessUser = true) :
    (rec.touched now username updateModified).Restorable storagePath := by
  have modified : FitsLongLong (if updateModified then now else rec.modified) := by
    split
    · exact time
    · exact restorable.modified_fits
  exact restorable.updated restorable.readers restorable.writers modified time
    user restorable.undoAvailable_fits restorable.checkpoints_few
    restorable.checkpoints

theorem rewritten
    {now undoAvailable : Int}
    {username : CString}
    (time : FitsLongLong now)
    (user :
      validateUsername
        (rec.rewritten now username undoAvailable).lastAccessUser = true)
    (undo : FitsInt undoAvailable) :
    (rec.rewritten now username undoAvailable).Restorable storagePath :=
  restorable.updated restorable.readers restorable.writers time time user undo
    restorable.checkpoints_few restorable.checkpoints

theorem withLists
    {readUsers writeUsers : List CString}
    (readers : RestorableUsers (str "READ=") readUsers)
    (writers : RestorableUsers (str "WRITE=") writeUsers) :
    (rec.withLists readUsers writeUsers).Restorable storagePath :=
  restorable.updated readers writers restorable.modified_fits
    restorable.lastAccess_fits restorable.lastAccessUser_valid
    restorable.undoAvailable_fits restorable.checkpoints_few
    restorable.checkpoints

theorem checkpointed
    {now : Int}
    {username tag ckptPath : CString}
    (time : FitsLongLong now)
    (user :
      validateUsername
        (rec.checkpointed now username tag ckptPath).lastAccessUser = true)
    (added : CheckpointRecord.Restorable ⟨tag, ckptPath⟩) :
    (rec.checkpointed now username tag ckptPath).Restorable storagePath := by
  have few :
      (rec.keptCheckpoints ++ [CheckpointRecord.mk tag ckptPath]).length ≤
        ssMaxCheckpoints := by
    have bound := restorable.checkpoints_few
    have room : 1 ≤ ssMaxCheckpoints := by decide
    rw [List.length_append, List.length_singleton,
      FileRecord.keptCheckpoints]
    split
    · rw [List.length_tail]
      omega
    · omega
  have kept :
      ∀ ckpt ∈ rec.keptCheckpoints ++ [CheckpointRecord.mk tag ckptPath],
        ckpt.Restorable := by
    intro ckpt listed
    rcases List.mem_append.mp listed with old | new
    · exact restorable.checkpoints ckpt
        (rec.keptCheckpoints_sublist.subset old)
    · exact List.mem_singleton.mp new ▸ added
  exact restorable.updated restorable.readers restorable.writers
    restorable.modified_fits time user restorable.undoAvailable_fits few kept

end FileRecord.Restorable

/-! ## Names and checkpoints that are new -/

/-- No document has the name of a sidecar. -/
theorem RestorableName.physicalNameOf_ne
    {name : CString}
    (restorable : RestorableName name)
    {other suffix : CString}
    (nonempty : physicalNameOf other ≠ [])
    (taken : suffix = ssMetaSuffix ∨ suffix = ssUndoSuffix) :
    physicalNameOf name ≠ physicalNameOf other ++ suffix := by
  intro same
  have document := restorable.document
  have positive := List.length_pos_iff.mpr nonempty
  have beyond : endsBeyond suffix (physicalNameOf name) = true := by
    rw [same, endsBeyond, Bool.and_eq_true, decide_eq_true_eq,
      List.isSuffixOf_iff_suffix]
    refine ⟨?_, List.suffix_append _ _⟩
    rw [List.length_append]
    omega
  simp only [isDocumentName, Bool.and_eq_true, Bool.not_eq_true'] at document
  obtain ⟨⟨⟨_, notMeta⟩, notUndo⟩, _⟩ := document
  rcases taken with rfl | rfl
  · rw [notMeta] at beyond
    cases beyond
  · rw [notUndo] at beyond
    cases beyond

/-- The record of a new document. -/
theorem restorable_newFileRecord
    (ss : StorageServer)
    {now : Int}
    (time : FitsLongLong now)
    {filename owner : CString}
    (validName : validateFilename filename = true)
    (validOwner : validateUsername owner = true)
    (name : RestorableName filename) :
    (newFileRecord ss now filename owner).Restorable ss.storagePath := by
  have short := length_of_validateFilename validName
  have placed :=
    wellPlaced_ssSetRecordPaths ss.storagePath.property short
      (ssInitFileRecord ss.storagePath ss.nextAddress filename)
  have named : (newFileRecord ss now filename owner).filename = filename :=
    safeStrcpy_of_short short
  have noUndo : FitsInt 0 := ⟨by decide, by decide⟩
  have noUsers :
      ∀ label : CString, label.length < 10 → RestorableUsers label [] := by
    intro label labelShort
    refine ⟨by simp, by decide, ?_⟩
    rw [csv, List.intercalate_nil, List.append_nil, metadataLineSize]
    omega
  exact
    { filepath_eq := placed.filepath_eq
      metapath_eq := placed.metapath_eq
      undopath_eq := placed.undopath_eq
      filename_nonempty := by
        rw [named]
        exact nonempty_of_validateFilename validName
      filename_oneLine := by
        rw [named]
        exact name.oneLine
      filename_last := by
        rw [named]
        exact name.last
      physicalName_eq := congrArg physicalNameOf named.symm
      owner_valid := KeepsUsersKnown.valid_copy validOwner
      lastAccessUser_valid := KeepsUsersKnown.valid_copy validOwner
      created_fits := time
      modified_fits := time
      lastAccess_fits := time
      undoAvailable_fits := noUndo
      readers := noUsers _ (by decide)
      writers := noUsers _ (by decide)
      checkpoints_few := Nat.zero_le _
      checkpoints := by
        intro ckpt listed
        cases listed }

/-- The record under its new name. -/
theorem FileRecord.Restorable.movedTo
    {storagePath : CString}
    (short : storagePath.length ≤ maxTagLength)
    {rec : FileRecord}
    (restorable : rec.Restorable storagePath)
    {now : Int}
    (time : FitsLongLong now)
    {newLogical : CString}
    (valid : validateFilename newLogical = true)
    (name : RestorableName newLogical) :
    (rec.movedTo storagePath newLogical now).Restorable storagePath := by
  have nameShort := length_of_validateFilename valid
  have placed := (paths_renamed short nameShort now rec).1
  have named :
      (rec.movedTo storagePath newLogical now).filename = newLogical :=
    safeStrcpy_of_short nameShort
  have physical :
      safeStrcpy (physicalNameOf newLogical) maxFilenameLength =
        physicalNameOf newLogical :=
    safeStrcpy_of_short (length_physicalNameOf newLogical)
  exact
    { filepath_eq := placed.filepath_eq
      metapath_eq := placed.metapath_eq
      undopath_eq := placed.undopath_eq
      filename_nonempty := by
        rw [named]
        exact nonempty_of_validateFilename valid
      filename_oneLine := by
        rw [named]
        exact name.oneLine
      filename_last := by
        rw [named]
        exact name.last
      physicalName_eq := physical.trans (congrArg physicalNameOf named.symm)
      owner_valid := restorable.owner_valid
      lastAccessUser_valid := restorable.lastAccessUser_valid
      created_fits := restorable.created_fits
      modified_fits := time
      lastAccess_fits := time
      undoAvailable_fits := restorable.undoAvailable_fits
      readers := restorable.readers
      writers := restorable.writers
      checkpoints_few := restorable.checkpoints_few
      checkpoints := restorable.checkpoints }

/-- The name of a snapshot has the mark of snapshots in it. -/
theorem snapshot_of_checkpointPath
    {storagePath : CString}
    {rec : FileRecord}
    {now : Int}
    {tag path : CString}
    (built : checkpointPath storagePath rec now tag = some path) :
    ∃ base,
      path = storagePath ++ str "/" ++ base ∧ base.length ≤ 671 ∧
        str ".ckpt_" <:+: base := by
  simp only [checkpointPath, buildPath, Option.ite_none_left_eq_some,
    Option.some.injEq] at built
  obtain ⟨_, rfl⟩ := built
  refine ⟨_, rfl, ?_, ?_⟩
  · rw [snprintf, List.length_take]
    exact Nat.le_trans (Nat.min_le_left _ _) (by decide)
  · have nameShort := rec.filename_short
    have marked : (rec.filename ++ str ".ckpt_").length ≤ 671 := by
      have markerLength : (str ".ckpt_").length = 6 := by decide
      rw [List.length_append, markerLength]
      rw [maxFilenameLength] at nameShort
      omega
    have size : maxFilenameLength + maxTagLength + 32 - 1 = 671 := rfl
    rw [snprintf, size]
    simp only [List.append_assoc (rec.filename ++ str ".ckpt_")]
    rw [List.take_append, List.take_of_length_le marked, List.append_assoc]
    exact ⟨rec.filename, _, List.append_assoc _ _ _⟩

/-- A checkpoint whose line is plain is read back. -/
theorem PlainCheckpoint.restorable
    {storagePath : CString}
    (short : storagePath.length ≤ maxTagLength)
    {rec : FileRecord}
    {now : Int}
    {tag path : CString}
    (plain : PlainCheckpoint (tagCopy tag) path)
    (built : ∃ label, checkpointPath storagePath rec now label = some path) :
    CheckpointRecord.Restorable ⟨tagCopy tag, path⟩ := by
  obtain ⟨label, built⟩ := built
  obtain ⟨base, rfl, baseShort, _⟩ := snapshot_of_checkpointPath built
  have slash : (str "/").length = 1 := by decide
  have pathShort : (storagePath ++ str "/" ++ base).length ≤ 800 := by
    rw [List.length_append, List.length_append, slash]
    rw [maxTagLength] at short
    omega
  have tagShort := length_tagCopy tag
  rw [maxTagLength] at tagShort
  have marker : (str "CHECKPOINT=").length = 11 := by decide
  have plainMarker : newline ∉ str "CHECKPOINT=" := by decide
  have plainColon : newline ≠ CChar.ofChar ':' := by decide
  refine
    { tag_solid := solidEnds_trimString _
      tag_plain := plain.tag_plain
      tag_short := ?_
      filepath_solid := plain.path_solid ▸ solidEnds_trimString _
      filepath_short := ?_
      oneLine := ?_
      fits := ?_ }
  · exact tagCopy_short tag
  · exact Nat.lt_of_le_of_lt pathShort (by decide)
  · rw [checkpointLine, List.mem_append, List.mem_append, List.mem_cons]
    simp only [not_or]
    exact ⟨plainMarker, plain.tag_oneLine, plainColon, plain.path_oneLine⟩
  · simp only [checkpointLine, List.length_append, List.length_cons, marker,
      metadataLineSize] at pathShort ⊢
    omega

/-! ## Lists of users after a request -/

theorem length_csv (users : List CString) :
    (csv users).length = roomFor users - 1 := by
  by_cases empty : users = []
  · subst empty
    rfl
  · have joined := length_intercalate_add_one (CChar.ofChar ',') empty
    have comma : str "," = [CChar.ofChar ','] := by decide
    rw [csv, comma]
    omega

namespace RestorableUsers

variable
  {label : CString}
  {users : List CString}
  (restorable : RestorableUsers label users)

include restorable

/-- A list from which a user has been taken off. -/
theorem removed (username : CString) :
    RestorableUsers label (ssAclRemove users username).2 := by
  have short : ∀ user ∈ users, user.length < maxUsernameLength :=
    fun user listed =>
      (validateUsername_iff.mp (restorable.valid user listed)).2.1
  have perm := fileAclRemove_perm short username
  have room : roomFor (ssAclRemove users username).2 ≤ roomFor users := by
    calc
      roomFor (ssAclRemove users username).2 =
          roomFor (users.erase username) :=
        roomFor_perm perm
      _ ≤ roomFor users := roomFor_sublist List.erase_sublist
  have fits := restorable.fits
  rw [List.length_append, length_csv] at fits
  refine ⟨?_, ?_, ?_⟩
  · intro user listed
    exact restorable.valid user
      (List.mem_of_mem_erase (perm.mem_iff.mp listed))
  · exact Nat.le_trans (perm.length_eq ▸ List.length_erase_le)
      restorable.few
  · rw [List.length_append, length_csv]
    omega

/-- A list to which a user has been added, if there was room. -/
theorem added
    {username : CString}
    (valid : validateUsername username = true)
    (room : users.length < ssMaxUsersPerFile)
    (fits : FitsLine (label ++ csv (users ++ [username]))) :
    RestorableUsers label (users ++ [username]) := by
  refine ⟨?_, ?_, fits⟩
  · intro user listed
    rcases List.mem_append.mp listed with old | new
    · exact restorable.valid user old
    · exact List.mem_singleton.mp new ▸ valid
  · rw [List.length_append, List.length_singleton]
    exact room

end RestorableUsers

end DistributedDocs
