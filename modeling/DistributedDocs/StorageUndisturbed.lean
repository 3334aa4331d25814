import DistributedDocs.StorageSteps

namespace DistributedDocs

/-!
# Handlers on a disk whose operations succeed

With no trouble planned, each handler's body is a plain function of the state:
it is refused without a trace, or it ends in the state given here.
-/

/-- The `WRITE_COMPLETE` for a record whose content file has these bytes. -/
def writeComplete (rec : FileRecord) (bytes : RawBytes) : List CString :=
  [ str "WRITE_COMPLETE", rec.filename, decimal bytes.length,
    decimal (countWords (cString bytes)),
    decimal (countChars (cString bytes)) ]

section Primitives

variable
  {ss : StorageServer}
  (undisturbed : ss.disk.outcomes = [])

include undisturbed

theorem ssReadFileContent_undisturbed (path : CString) :
    ssReadFileContent path ss =
      .ok ((ss.disk.bytesAt path).map cString) ss := by
  simp [ssReadFileContent, Disk.read_undisturbed undisturbed]

theorem ssWriteFileContent_undisturbed (path data : CString) :
    ssWriteFileContent path data ss =
      .ok true
        { ss with disk := ss.disk.set path (some (rawBytes data)) } := by
  simp [ssWriteFileContent, Disk.write_undisturbed undisturbed]

theorem unlink_undisturbed (path : CString) :
    unlink path ss = .ok () { ss with disk := ss.disk.set path none } := by
  simp [unlink, Disk.unlink_undisturbed undisturbed]

theorem ssTouchFileMetadata_undisturbed
    (now : Int)
    (rec : FileRecord)
    (username : Option CString)
    (updateModified : Bool) :
    ssTouchFileMetadata now rec username updateModified ss =
      .ok ()
        { ss with
          files := storeRecord (rec.touched now username updateModified) ss.files
          disk :=
            ss.disk.set rec.metapath
              (some (rawBytes (metadataText
                (rec.touched now username updateModified)))) } := by
  simp [ssTouchFileMetadata, ssWriteMetadata,
    Disk.write_undisturbed undisturbed, FileRecord.touched]

theorem ssSyncMetadataToNs_undisturbed
    {rec : FileRecord}
    {bytes : RawBytes}
    (present : ss.disk.bytesAt rec.filepath = some bytes) :
    ssSyncMetadataToNs rec ss =
      .ok ()
        { ss with
          sent := ss.sent ++ [⟨.nameServer, writeComplete rec bytes⟩] } := by
  simp [ssSyncMetadataToNs, getFileSize, present, writeComplete,
    ssReadFileContent_undisturbed undisturbed]

end Primitives

/-- The record after a commit, an undo or a revert. -/
def FileRecord.rewritten
    (rec : FileRecord)
    (now : Int)
    (username : CString)
    (undoAvailable : Int) : FileRecord :=
  FileRecord.touched now (some username) true
    { rec with undoAvailable := undoAvailable }

/-- The disk after the content has been rewritten and a snapshot kept. -/
def FileRecord.diskAfter
    (rec : FileRecord)
    (disk : Disk CString)
    (snapshot content : RawBytes)
    (description : CString) : Disk CString :=
  ((disk.set rec.undopath (some snapshot)).set rec.filepath
    (some content)).set rec.metapath (some (rawBytes description))

/-- The checkpoints that stay when another one is taken. -/
def FileRecord.keptCheckpoints (rec : FileRecord) : List CheckpointRecord :=
  if ssMaxCheckpoints ≤ rec.checkpoints.length then
    rec.checkpoints.tail
  else
    rec.checkpoints

/-- The snapshot that is given up when another checkpoint is taken. -/
def FileRecord.evictedPaths (rec : FileRecord) : List CString :=
  if ssMaxCheckpoints ≤ rec.checkpoints.length then
    (rec.checkpoints.take 1).map CheckpointRecord.filepath
  else
    []

/-- The record after a checkpoint. -/
def FileRecord.checkpointed
    (rec : FileRecord)
    (now : Int)
    (username tag ckptPath : CString) : FileRecord :=
  FileRecord.touched now (some username) false
    { rec with checkpoints := rec.keptCheckpoints ++ [⟨tag, ckptPath⟩] }

/-- The disk after the content has been copied and the oldest copy given up. -/
def FileRecord.diskAfterCheckpoint
    (rec : FileRecord)
    (disk : Disk CString)
    (content : RawBytes)
    (ckptPath description : CString) : Disk CString :=
  ((disk.set ckptPath
    (some (if rec.filepath = ckptPath then [] else content))).clear
      rec.evictedPaths).set rec.metapath (some (rawBytes description))

/-! ## A file moved with its sidecars -/

/-- Content, metadata and snapshot renamed, and the metadata written again. -/
def movedDisk
    (disk : Disk CString)
    (currentPath newPath currentMeta newMeta currentUndo newUndo : CString)
    (description : RawBytes) : Disk CString :=
  ((((disk.rename currentPath newPath).2.rename currentMeta newMeta).2.rename
    currentUndo newUndo).2.write newMeta description).2

section Moved

variable
  {disk : Disk CString}
  (undisturbed : disk.outcomes = [])
  {currentPath newPath currentMeta newMeta currentUndo newUndo : CString}

include undisturbed

theorem bytesAt_movedDisk_content
    {bytes : RawBytes}
    (present : disk.bytesAt currentPath = some bytes)
    (clear : newPath ∉ [currentMeta, newMeta, currentUndo, newUndo])
    (description : RawBytes) :
    (movedDisk disk currentPath newPath currentMeta newMeta currentUndo
      newUndo description).bytesAt newPath = some bytes := by
  have sidecars :
      Disk.AgreesOutside [currentMeta, newMeta, currentUndo, newUndo]
        (disk.rename currentPath newPath).2
        (movedDisk disk currentPath newPath currentMeta newMeta currentUndo
          newUndo description) :=
    ((Disk.agreesOutside_rename _ _ _).mono (by simp)).trans
      (((Disk.agreesOutside_rename _ _ _).mono (by simp)).trans
        ((Disk.agreesOutside_write _ _ _).mono (by simp)))
  rw [sidecars.bytesAt_eq newPath clear,
    Disk.rename_undisturbed undisturbed present]
  simp

theorem bytesAt_movedDisk_snapshot
    {snapshot : RawBytes}
    (kept : disk.bytesAt currentUndo = some snapshot)
    (clear : currentUndo ∉ [currentPath, newPath, currentMeta, newMeta])
    (suffixesApart : newUndo ≠ newMeta)
    (description : RawBytes) :
    (movedDisk disk currentPath newPath currentMeta newMeta currentUndo
      newUndo description).bytesAt newUndo = some snapshot := by
  have earlier :
      Disk.AgreesOutside [currentPath, newPath, currentMeta, newMeta] disk
        ((disk.rename currentPath newPath).2.rename currentMeta
          newMeta).2 :=
    ((Disk.agreesOutside_rename _ _ _).mono (by simp)).trans
      ((Disk.agreesOutside_rename _ _ _).mono (by simp))
  have stillKept := (earlier.bytesAt_eq currentUndo clear).trans kept
  rw [movedDisk,
    (Disk.agreesOutside_write _ _ _).bytesAt_eq newUndo
      (by simpa using suffixesApart),
    Disk.rename_undisturbed (earlier.undisturbed undisturbed) stillKept]
  simp

omit undisturbed in
theorem agreesOutside_movedDisk (description : RawBytes) :
    Disk.AgreesOutside
      [currentPath, newPath, currentMeta, newMeta, currentUndo, newUndo] disk
      (movedDisk disk currentPath newPath currentMeta newMeta currentUndo
        newUndo description) :=
  ((Disk.agreesOutside_rename _ _ _).mono (by simp)).trans
    (((Disk.agreesOutside_rename _ _ _).mono (by simp)).trans
      (((Disk.agreesOutside_rename _ _ _).mono (by simp)).trans
        ((Disk.agreesOutside_write _ _ _).mono (by simp))))

theorem bytesAt_movedDisk_description (description : RawBytes) :
    (movedDisk disk currentPath newPath currentMeta newMeta currentUndo
      newUndo description).bytesAt newMeta = some description := by
  have moved :
      (((disk.rename currentPath newPath).2.rename currentMeta
        newMeta).2.rename currentUndo newUndo).2.outcomes = [] :=
    (Disk.agreesOutside_rename _ _ _).undisturbed
      ((Disk.agreesOutside_rename _ _ _).undisturbed
        ((Disk.agreesOutside_rename _ _ _).undisturbed undisturbed))
  rw [movedDisk, Disk.write_undisturbed moved, Disk.bytesAt_set_same]

/-- No file is left where one has been moved away from. -/
theorem bytesAt_movedDisk_gone
    (apart : [currentPath, currentMeta, currentUndo].Nodup)
    {path : CString}
    (old : path ∈ [currentPath, currentMeta, currentUndo])
    (left : path ∉ [newPath, newMeta, newUndo])
    (description : RawBytes) :
    (movedDisk disk currentPath newPath currentMeta newMeta currentUndo
      newUndo description).bytesAt path = none := by
  simp only [List.mem_cons, List.not_mem_nil, or_false, not_or] at left
  obtain ⟨notContent, notMeta, notUndo⟩ := left
  simp only [List.nodup_cons, List.mem_cons, List.not_mem_nil, or_false,
    not_or] at apart
  obtain ⟨⟨contentMeta, contentUndo⟩, metaUndo, _⟩ := apart
  have first :=
    (Disk.agreesOutside_rename currentPath newPath disk).undisturbed
      undisturbed
  have second :=
    (Disk.agreesOutside_rename currentMeta newMeta _).undisturbed first
  have described :
      ∀ later : Disk CString,
        (later.write newMeta description).2.bytesAt path =
          later.bytesAt path :=
    fun later =>
      (Disk.agreesOutside_write _ _ later).bytesAt_eq path
        (by simpa using notMeta)
  rw [movedDisk, described]
  simp only [List.mem_cons, List.not_mem_nil, or_false] at old
  rcases old with rfl | rfl | rfl
  · rw [(Disk.agreesOutside_rename _ _ _).bytesAt_eq _
        (by simp [contentUndo, notUndo]),
      (Disk.agreesOutside_rename _ _ _).bytesAt_eq _
        (by simp [contentMeta, notMeta])]
    exact Disk.bytesAt_rename_old undisturbed notContent
  · rw [(Disk.agreesOutside_rename _ _ _).bytesAt_eq _
        (by simp [metaUndo, notUndo])]
    exact Disk.bytesAt_rename_old first notMeta
  · exact Disk.bytesAt_rename_old second notUndo

end Moved

section Bodies

variable
  {ss : StorageServer}
  (undisturbed : ss.disk.outcomes = [])

include undisturbed

theorem commitSession_undisturbed
    (now : Int)
    (fd : Nat)
    (session : WriteSession)
    (rec : FileRecord)
    (apart : rec.filepath ≠ rec.metapath)
    {bytes : RawBytes}
    (present : ss.disk.bytesAt rec.filepath = some bytes)
    (valid :
      invalidSentenceBounds (cString bytes) session.sentenceStart
        session.sentenceEnd = false) :
    let newRecord := rec.rewritten now session.username 1
    let newContent :=
      splice (cString bytes) session.sentenceStart session.sentenceEnd
        session.sentenceWorking
    commitSession now fd session rec ss =
      .ok ()
        { ss with
          files := storeRecord newRecord ss.files
          sessions :=
            ssDetachSession
              (ssUpdateActiveSessions ss.sessions rec.address
                session.sentenceStart
                (session.sentenceEnd - session.sentenceStart)
                session.sentenceWorking.length
                (etirwSentenceDelta (cString bytes)
                  session.sentenceStart session.sentenceEnd
                  session.sentenceWorking)
                fd)
              fd
          disk :=
            rec.diskAfter ss.disk (rawBytes (cString bytes))
              (rawBytes newContent) (metadataText newRecord)
          sent :=
            ss.sent ++ [⟨.client fd, [str "OK_WRITE_DONE"]⟩] ++
              [⟨.nameServer,
                writeComplete rec (rawBytes newContent)⟩] } := by
  intro newRecord newContent
  simp only [commitSession, bind_apply,
    ssReadFileContent_undisturbed undisturbed, present, Option.map_some,
    ensure_apply, valid, Bool.not_false, ↓reduceIte,
    ssWriteFileContent_undisturbed, ssTouchFileMetadata_undisturbed,
    modifySessions_apply, send_apply, undisturbed, Disk.outcomes_set]
  refine ssSyncMetadataToNs_undisturbed (by simpa using undisturbed) ?_
  simp only [Disk.bytesAt_set_of_ne apart, Disk.bytesAt_set_same]
  rfl

/-- A commit that cannot read the content leaves no trace. -/
theorem commitSession_missing
    (now : Int)
    (fd : Nat)
    (session : WriteSession)
    (rec : FileRecord)
    (absent : ss.disk.bytesAt rec.filepath = none) :
    ∃ refusal, commitSession now fd session rec ss = .error refusal ss := by
  simp [commitSession, ssReadFileContent_undisturbed undisturbed, absent]

theorem undoRecord_undisturbed
    (now : Int)
    (fd : Nat)
    (username : CString)
    (rec : FileRecord)
    (available : rec.undoAvailable ≠ 0)
    {snapshot : RawBytes}
    (kept : ss.disk.bytesAt rec.undopath = some snapshot) :
    let newRecord := rec.rewritten now username 0
    undoRecord now fd username rec ss =
      .ok ()
        { ss with
          files := storeRecord newRecord ss.files
          disk :=
            (ss.disk.set rec.filepath
              (some (rawBytes (cString snapshot)))).set rec.metapath
                (some (rawBytes (metadataText newRecord)))
          sent := ss.sent ++ [⟨.client fd, [str "OK_UNDO"]⟩] } := by
  intro newRecord
  simp only [undoRecord, ssFileExists, bind_apply, get_apply, pure_apply,
    kept, Option.isSome_some, Bool.and_true, ensure_apply, ne_eq, available,
    not_false_eq_true, decide_true, ↓reduceIte,
    ssReadFileContent_undisturbed undisturbed, Option.map_some,
    ssWriteFileContent_undisturbed undisturbed,
    ssTouchFileMetadata_undisturbed, undisturbed, Disk.outcomes_set,
    send_apply]
  rfl

omit undisturbed in
theorem undoRecord_refused
    (now : Int)
    (fd : Nat)
    (username : CString)
    (rec : FileRecord)
    (nothing :
      rec.undoAvailable = 0 ∨ ss.disk.bytesAt rec.undopath = none) :
    ∃ refusal, undoRecord now fd username rec ss = .error refusal ss := by
  rcases nothing with unavailable | absent
  · simp [undoRecord, ssFileExists, unavailable]
  · simp [undoRecord, ssFileExists, absent]

theorem ssCopyFile_undisturbed
    {srcPath : CString}
    {bytes : RawBytes}
    (present : ss.disk.bytesAt srcPath = some bytes)
    (destPath : CString) :
    ssCopyFile srcPath destPath ss =
      .ok true
        { ss with
          disk :=
            ss.disk.set destPath
              (some (if srcPath = destPath then [] else bytes)) } := by
  simp [ssCopyFile, Disk.copy_undisturbed undisturbed present]

theorem ssCopyFile_missing
    {srcPath : CString}
    (absent : ss.disk.bytesAt srcPath = none)
    (destPath : CString) :
    ssCopyFile srcPath destPath ss = .ok false ss := by
  simp [ssCopyFile, Disk.copy_missing undisturbed absent]

/-- What a revert leaves, also where its three paths are not apart. -/
theorem revertRecord_restores
    (now : Int)
    (fd : Nat)
    (username : CString)
    {tag : CString}
    {rec : FileRecord}
    {ckpt : CheckpointRecord}
    {before checkpointed : RawBytes}
    (apart : rec.filepath ≠ rec.undopath)
    (found : ssFindCheckpoint rec tag = some ckpt)
    (stored : ss.disk.bytesAt ckpt.filepath = some checkpointed)
    (present : ss.disk.bytesAt rec.filepath = some before) :
    revertRecord now fd username tag rec ss =
      .ok ()
        { ss with
          files := storeRecord (rec.rewritten now username 1) ss.files
          disk :=
            rec.diskAfter ss.disk before
              (if ckpt.filepath = rec.filepath then []
                else if ckpt.filepath = rec.undopath then before
                else checkpointed)
              (metadataText (rec.rewritten now username 1))
          sent :=
            ss.sent ++
              [⟨.client fd,
                [ str "OK_REVERT",
                  snprintf 256
                    (str "File reverted to '" ++ tag ++ str "'.") ]⟩] } := by
  have stillStored :
      (ss.disk.set rec.undopath (some before)).bytesAt ckpt.filepath =
        some (if ckpt.filepath = rec.undopath then before
          else checkpointed) := by
    by_cases same : ckpt.filepath = rec.undopath
    · simp [same]
    · simp [same, Disk.bytesAt_set_of_ne same, stored]
  have first := ssCopyFile_undisturbed undisturbed present rec.undopath
  rw [if_neg apart] at first
  have second :
      ssCopyFile ckpt.filepath rec.filepath
          { ss with disk := ss.disk.set rec.undopath (some before) } =
        _ :=
    ssCopyFile_undisturbed (by simpa using undisturbed) stillStored
      rec.filepath
  simp only [revertRecord, found, ssFileExists, bind_apply, get_apply,
    pure_apply, stored, Option.isSome_some, ensure_apply, first, second,
    ↓reduceIte, ssTouchFileMetadata_undisturbed, undisturbed,
    Disk.outcomes_set, send_apply]
  rfl

/-- A revert leaves no trace, or finds the checkpoint, its snapshot and a content. -/
theorem revertRecord_refused_or_found
    (now : Int)
    (fd : Nat)
    (username tag : CString)
    (rec : FileRecord) :
    (∃ refusal, revertRecord now fd username tag rec ss =
        .error refusal ss) ∨
      ∃ ckpt checkpointed before,
        ssFindCheckpoint rec tag = some ckpt ∧
          ss.disk.bytesAt ckpt.filepath = some checkpointed ∧
            ss.disk.bytesAt rec.filepath = some before := by
  cases found : ssFindCheckpoint rec tag with
  | none =>
      exact Or.inl (by simp [revertRecord, found])
  | some ckpt =>
      cases stored : ss.disk.bytesAt ckpt.filepath with
      | none =>
          exact Or.inl (by simp [revertRecord, found, ssFileExists, stored])
      | some checkpointed =>
          cases present : ss.disk.bytesAt rec.filepath with
          | none =>
              exact Or.inl (by
                simp [revertRecord, found, ssFileExists, stored,
                  ssCopyFile_missing undisturbed present])
          | some before =>
              exact Or.inr ⟨ckpt, checkpointed, before, rfl, stored, rfl⟩

/-- A revert keeps the content as the snapshot, or leaves no trace. -/
theorem revertRecord_undisturbed
    (now : Int)
    (fd : Nat)
    (username tag : CString)
    (rec : FileRecord)
    (apart : rec.filepath ≠ rec.undopath) :
    (∃ refusal, revertRecord now fd username tag rec ss =
        .error refusal ss) ∨
      ∃ before restored text,
        ss.disk.bytesAt rec.filepath = some before ∧
          revertRecord now fd username tag rec ss =
            .ok ()
              { ss with
                files := storeRecord (rec.rewritten now username 1) ss.files
                disk :=
                  rec.diskAfter ss.disk before restored
                    (metadataText (rec.rewritten now username 1))
                sent :=
                  ss.sent ++ [⟨.client fd, [str "OK_REVERT", text]⟩] } := by
  rcases revertRecord_refused_or_found undisturbed now fd username tag rec with
    refused | ⟨ckpt, checkpointed, before, found, stored, present⟩
  · exact Or.inl refused
  · exact Or.inr ⟨before, _, _, present,
      revertRecord_restores undisturbed now fd username apart found stored
        present⟩

omit undisturbed in
theorem FileRecord.metapath_touched_renamed
    (now : Int)
    (newLogical newFlat newPath text newUndo : CString)
    (rec : FileRecord) :
    ((rec.renamed newLogical newFlat newPath (snprintf maxPathLength text)
        newUndo).touched now none true).metapath =
      snprintf maxPathLength text := by
  simp [FileRecord.touched, FileRecord.renamed, safeStrcpy, snprintf,
    List.take_take]

/-- A rename of a file that is there succeeds and moves the sidecars along. -/
theorem renameRecord_undisturbed
    (now : Int)
    (newLogical newFlat currentPath newPath : CString)
    (rec : FileRecord)
    {bytes : RawBytes}
    (present : ss.disk.bytesAt currentPath = some bytes) :
    let newMeta := snprintf maxPathLength (newPath ++ ssMetaSuffix)
    let newUndo := snprintf maxPathLength (newPath ++ ssUndoSuffix)
    let newRecord :=
      (rec.renamed newLogical newFlat newPath newMeta newUndo).touched now
        none true
    renameRecord now newLogical newFlat currentPath newPath rec ss =
      .ok true
        { ss with
          files := storeRecord newRecord ss.files
          disk :=
            movedDisk ss.disk currentPath newPath
              (snprintf maxPathLength (currentPath ++ ssMetaSuffix)) newMeta
              (snprintf maxPathLength (currentPath ++ ssUndoSuffix)) newUndo
              (rawBytes (metadataText newRecord)) } := by
  intro newMeta newUndo newRecord
  have moved :
      (ss.disk.rename currentPath newPath).1 = true := by
    rw [Disk.rename_undisturbed undisturbed present]
  simp only [renameRecord, rename, bind_apply, onDisk_apply, moved,
    ↓reduceIte, ssTouchFileMetadata, ssWriteMetadata, modify_apply,
    pure_apply, FileRecord.metapath_touched_renamed]
  rfl

theorem renameRecord_missing
    (now : Int)
    (newLogical newFlat newPath : CString)
    {currentPath : CString}
    (rec : FileRecord)
    (absent : ss.disk.bytesAt currentPath = none) :
    renameRecord now newLogical newFlat currentPath newPath rec ss =
      .ok false ss := by
  simp [renameRecord, rename, Disk.rename_missing undisturbed absent]

/-! ### Checkpoints -/

omit undisturbed in
theorem length_tagCopy (tag : CString) :
    (tagCopy tag).length < maxTagLength :=
  lt_of_le_of_lt (trimString_sublist (safeStrcpy tag maxTagLength)).length_le
    (length_safeStrcpy_lt _ (by decide))

omit undisturbed in
theorem tagCopy_short (tag : CString) :
    (tagCopy tag).length < maxFilenameLength :=
  lt_trans (length_tagCopy tag) (by decide)

theorem pruneIfFull_undisturbed (rec : FileRecord) :
    pruneIfFull rec ss =
      .ok { rec with checkpoints := rec.keptCheckpoints }
        { ss with disk := ss.disk.clear rec.evictedPaths } := by
  unfold pruneIfFull FileRecord.keptCheckpoints FileRecord.evictedPaths
  by_cases full : ssMaxCheckpoints ≤ rec.checkpoints.length
  · simp only [ge_iff_le, full, ↓reduceIte]
    cases listed : rec.checkpoints with
    | nil =>
        rw [listed] at full
        exact absurd full (by decide)
    | cons oldest others =>
        simp [unlink_undisturbed undisturbed, Disk.clear]
  · simp [full, Disk.clear]

/-- A checkpoint of a file that is there succeeds. -/
theorem checkpointRecord_undisturbed
    (now : Int)
    (fd : Nat)
    {storagePath : CString}
    (username : CString)
    {tag ckptPath : CString}
    {rec : FileRecord}
    (tagShort : tag.length < maxFilenameLength)
    (built : snapshotPath storagePath now tag rec = some ckptPath)
    {bytes : RawBytes}
    (present : ss.disk.bytesAt rec.filepath = some bytes) :
    checkpointRecord now fd storagePath username tag rec ss =
      .ok ()
        { ss with
          files :=
            storeRecord (rec.checkpointed now username tag ckptPath) ss.files
          disk :=
            rec.diskAfterCheckpoint ss.disk bytes ckptPath
              (metadataText (rec.checkpointed now username tag ckptPath))
          sent :=
            ss.sent ++
              [⟨.client fd,
                [ str "OK_CHECKPOINT",
                  snprintf 256
                    (str "Checkpoint '" ++ tag ++ str "' created.") ]⟩] } := by
  simp only [snapshotPath, Option.ite_none_right_eq_some] at built
  obtain ⟨unknown, path⟩ := built
  have pathShort : ckptPath.length < maxPathLength :=
    length_lt_of_buildPath path
  simp only [checkpointRecord, bind_apply, ensure_apply, unknown, path,
    ↓reduceIte, ssCopyFile_undisturbed undisturbed present,
    pruneIfFull_undisturbed, ssTouchFileMetadata_undisturbed, undisturbed,
    Disk.outcomes_set, Disk.outcomes_clear, send_apply,
    safeStrcpy_of_short tagShort, safeStrcpy_of_short pathShort]
  rfl

/-- A checkpoint of a file that is missing removes what is at its path. -/
theorem checkpointRecord_missing
    (now : Int)
    (fd : Nat)
    {storagePath : CString}
    (username : CString)
    {tag ckptPath : CString}
    {rec : FileRecord}
    (built : snapshotPath storagePath now tag rec = some ckptPath)
    (absent : ss.disk.bytesAt rec.filepath = none) :
    ∃ refusal,
      checkpointRecord now fd storagePath username tag rec ss =
        .error refusal { ss with disk := ss.disk.set ckptPath none } := by
  simp only [snapshotPath, Option.ite_none_right_eq_some] at built
  obtain ⟨unknown, path⟩ := built
  simp [checkpointRecord, unknown, path,
    ssCopyFile_missing undisturbed absent,
    unlink_undisturbed undisturbed]

/-! ### Copies -/

/-- The program only writes a file that is there. -/
def WritesOnly
    (path : CString)
    (ss : StorageServer)
    (program : Handler (Option Refusal)) : Prop :=
  ∃ failure written,
    program ss =
      .ok failure { ss with disk := ss.disk.set path (some written) }

omit undisturbed in
theorem WritesOnly.ite
    {path : CString}
    {condition : Prop}
    [Decidable condition]
    {first second : Handler (Option Refusal)}
    (firstOnly : WritesOnly path ss first)
    (secondOnly : WritesOnly path ss second) :
    WritesOnly path ss (if condition then first else second) := by
  split
  · exact firstOnly
  · exact secondOnly

omit undisturbed in
theorem WritesOnly.pure
    {path : CString}
    {bytes : RawBytes}
    (present : ss.disk.bytesAt path = some bytes)
    (failure : Option Refusal) :
    WritesOnly path ss (Pure.pure failure) :=
  ⟨failure, bytes, by rw [← present, Disk.set_bytesAt]; rfl⟩

/-- Whatever the peer sends, only the temporary file changes. -/
theorem receiveChunks_writesOnly
    (tempPath : CString)
    (messages : List (Option (List CString)))
    {bytes : RawBytes}
    (present : ss.disk.bytesAt tempPath = some bytes) :
    WritesOnly tempPath ss (receiveChunks tempPath messages) := by
  induction messages generalizing ss bytes with
  | nil =>
      exact .pure present _
  | cons message rest inductionHypothesis =>
      have goesOn := inductionHypothesis undisturbed present
      match message with
      | none =>
          exact .pure present _
      | some [] =>
          exact .pure present _
      | some (type :: arguments) =>
          refine .ite (.ite (.pure present _)
            (.ite (.pure present _) (.pure present _))) (.ite ?_
              (.ite (.pure present _) goesOn))
          match arguments with
          | [] =>
              exact goesOn
          | [] :: _ =>
              exact goesOn
          | (c :: chunk) :: _ =>
              obtain ⟨failure, received, later⟩ :=
                @inductionHypothesis
                  { ss with
                    disk :=
                      ss.disk.set tempPath
                        (some (bytes ++ rawBytes (c :: chunk))) }
                  (by simpa using undisturbed)
                  (bytes ++ rawBytes (c :: chunk)) (by simp)
              refine ⟨failure, received, ?_⟩
              simpa [Disk.append_undisturbed undisturbed, present]
                using later

/-- Filling the temporary file changes that file only. -/
theorem fetchSource_undisturbed
    (peer : PeerSession)
    (srcRec : Option FileRecord)
    (tempPath : CString) :
    ∃ failure contents,
      fetchSource peer srcRec tempPath ss =
          .ok failure { ss with disk := ss.disk.set tempPath contents } ∧
        (failure = none → contents.isSome = true) := by
  cases srcRec with
  | some rec =>
      cases stored : ss.disk.bytesAt rec.filepath with
      | none =>
          refine ⟨some ⟨errInternalError,
              str "Failed to clone local source file"⟩,
            ss.disk.bytesAt tempPath, ?_, nofun⟩
          simp [fetchSource, cloneLocal,
            ssCopyFile_missing undisturbed stored]
      | some bytes =>
          refine ⟨none, some (if rec.filepath = tempPath then [] else bytes),
            ?_, fun _ => Option.isSome_some⟩
          simp [fetchSource, cloneLocal,
            ssCopyFile_undisturbed undisturbed stored]
  | none =>
      cases peer with
      | unreachable =>
          refine ⟨some ⟨errInternalError,
              str "Failed to reach source server"⟩,
            ss.disk.bytesAt tempPath, ?_, nofun⟩
          simp [fetchSource, fetchRemote]
      | requestNotSent =>
          refine ⟨some ⟨errInternalError,
              str "Failed to request source content"⟩,
            ss.disk.bytesAt tempPath, ?_, nofun⟩
          simp [fetchSource, fetchRemote]
      | answers messages =>
          obtain ⟨failure, received, ended⟩ :=
            @receiveChunks_writesOnly
              { ss with disk := ss.disk.set tempPath (some []) }
              (by simpa using undisturbed) tempPath messages [] (by simp)
          cases failure with
          | none =>
              refine ⟨none, some received, ?_, fun _ => Option.isSome_some⟩
              simp [fetchSource, fetchRemote,
                Disk.write_undisturbed undisturbed, ended]
          | some refusal =>
              refine ⟨some refusal, none, ?_, nofun⟩
              simp [fetchSource, fetchRemote,
                Disk.write_undisturbed undisturbed, ended,
                unlink_undisturbed, undisturbed]

/-- A copy leaves no temporary file, and replaces the content or nothing. -/
theorem copyInto_undisturbed
    (now : Int)
    (peer : PeerSession)
    (username : CString)
    (srcRec : Option FileRecord)
    (destRec : FileRecord)
    (apart : destRec.filepath ≠ destRec.metapath) :
    let newRecord := destRec.touched now (some username) true
    (∃ refusal,
        copyInto now peer username srcRec destRec ss =
          .error refusal
            { ss with
              disk := ss.disk.set (copyTempPath destRec) none }) ∨
      ∃ bytes,
        copyInto now peer username srcRec destRec ss =
          .ok ()
            { ss with
              files := storeRecord newRecord ss.files
              disk :=
                ((ss.disk.set (copyTempPath destRec) none).set
                  destRec.filepath (some bytes)).set destRec.metapath
                    (some (rawBytes (metadataText newRecord)))
              sent :=
                ss.sent ++ [⟨.nameServer, writeComplete destRec bytes⟩] ++
                  [⟨.nameServer, [str "OK", str "Copy successful"]⟩] } := by
  intro newRecord
  obtain ⟨failure, contents, ended, filled⟩ :=
    @fetchSource_undisturbed
      { ss with disk := ss.disk.set (copyTempPath destRec) none }
      (by simpa using undisturbed) peer srcRec (copyTempPath destRec)
  simp only [Disk.set_set] at ended
  cases failure with
  | some refusal =>
      refine Or.inl ⟨refusal, ?_⟩
      simp [copyInto, unlink_undisturbed undisturbed, ended,
        unlink_undisturbed, undisturbed]
  | none =>
      obtain ⟨bytes, rfl⟩ := Option.isSome_iff_exists.mp (filled rfl)
      refine Or.inr ⟨bytes, ?_⟩
      have moved :
          (ss.disk.set (copyTempPath destRec) (some bytes)).rename
              (copyTempPath destRec) destRec.filepath =
            (true,
              (ss.disk.set (copyTempPath destRec) none).set destRec.filepath
                (some bytes)) := by
        rw [Disk.rename_undisturbed (by simpa using undisturbed)
          (Disk.bytesAt_set_same _ _ _), Disk.set_set]
      simp only [copyInto, bind_apply, unlink_undisturbed undisturbed, ended,
        rename, onDisk_apply, moved, ensure_apply, ↓reduceIte,
        ssTouchFileMetadata_undisturbed, Disk.outcomes_set, undisturbed]
      have synchronised :=
        @ssSyncMetadataToNs_undisturbed
          { ss with
            files := storeRecord newRecord ss.files
            disk :=
              ((ss.disk.set (copyTempPath destRec) none).set
                destRec.filepath (some bytes)).set destRec.metapath
                  (some (rawBytes (metadataText newRecord))) }
          (by simpa using undisturbed) destRec bytes (by
            rw [Disk.bytesAt_set_of_ne apart, Disk.bytesAt_set_same])
      simp only [newRecord] at synchronised
      simp only [synchronised, send_apply]
      rfl

/-! ### Creation and deletion -/

theorem addRecord_undisturbed (newRecord : FileRecord) :
    addRecord newRecord ss =
      .ok true
        { ss with
          files := newRecord :: ss.files
          disk :=
            (ss.disk.set newRecord.filepath (some [])).set newRecord.metapath
              (some (rawBytes (metadataText newRecord)))
          nextAddress := ss.nextAddress + 1 } := by
  simp [addRecord, ssWriteMetadata, Disk.write_undisturbed, undisturbed]

theorem forM_unlink_undisturbed (paths : List CString) :
    paths.forM unlink ss =
      .ok () { ss with disk := ss.disk.clear paths } := by
  induction paths generalizing ss with
  | nil =>
      rfl
  | cons path rest inductionHypothesis =>
      have first := unlink_undisturbed undisturbed path
      have later :=
        @inductionHypothesis { ss with disk := ss.disk.set path none }
          (by simpa using undisturbed)
      have split :
          (path :: rest).forM unlink ss =
            (unlink path >>= fun _ => rest.forM unlink) ss := rfl
      rw [split, bind_apply, first]
      exact later

theorem removeRecord_undisturbed (node : FileRecord) :
    removeRecord node ss =
      .ok ()
        { ss with
          files := ss.files.eraseP fun r => r.address = node.address
          disk := ss.disk.clear node.paths } := by
  have unlinked := forM_unlink_undisturbed undisturbed node.paths
  simp only [removeRecord, bind_apply]
  simp only [unlinked, modify_apply]

end Bodies

/-! ## Commands -/

/-- The paths of a name are not cut off. -/
theorem snprintf_contentPath
    {storagePath : CString}
    (short : storagePath.length ≤ maxTagLength)
    (logicalName : CString)
    {suffix : CString}
    (suffixShort : suffix.length ≤ 5) :
    snprintf maxPathLength (contentPath storagePath logicalName ++ suffix) =
      contentPath storagePath logicalName ++ suffix := by
  have pathShort := length_contentPath short logicalName
  apply snprintf_of_short
  rw [List.length_append, maxPathLength]
  omega

/-- No metadata path is a snapshot path. -/
theorem append_meta_ne_append_undo (first second : CString) :
    first ++ ssMetaSuffix ≠ second ++ ssUndoSuffix := by
  intro same
  have suffixes : ssMetaSuffix = ssUndoSuffix :=
    List.append_inj_right' same (by decide)
  exact absurd suffixes (by decide)

/-- A rename of a file that is there stores the renamed record. -/
theorem ssStep_ssRename_undisturbed
    {ss : StorageServer}
    (undisturbed : ss.disk.outcomes = [])
    (now : Int)
    {oldLogical newLogical : CString}
    {rec : FileRecord}
    (admitted : renamedRecord ss oldLogical newLogical = some rec)
    (placed : rec.WellPlaced ss.storagePath)
    {bytes : RawBytes}
    (present : ss.disk.bytesAt rec.filepath = some bytes)
    (clear :
      contentPath ss.storagePath newLogical ∉
        [rec.metapath, rec.undopath]) :
    let newPath := contentPath ss.storagePath newLogical
    let newRecord :=
      (rec.renamed newLogical (physicalNameOf newLogical) newPath
        (snprintf maxPathLength (newPath ++ ssMetaSuffix))
        (snprintf maxPathLength (newPath ++ ssUndoSuffix))).touched now
          none true
    Accepted ss ⟨now, .ssRename oldLogical newLogical⟩ = true ∧
      ∃ disk sent,
        ssStep ss ⟨now, .ssRename oldLogical newLogical⟩ =
            { ss with
              files := storeRecord newRecord ss.files
              disk := disk
              sent := sent } ∧
          disk.bytesAt newPath = some bytes ∧
          ∀ snapshot, ss.disk.bytesAt rec.undopath = some snapshot →
            disk.bytesAt (newPath ++ ssUndoSuffix) = some snapshot := by
  intro newPath newRecord
  have short := ss.storagePath.property
  have metaNonempty : ssMetaSuffix ≠ [] := by decide
  have undoNonempty : ssUndoSuffix ≠ [] := by decide
  simp only [renamedRecord, Option.ite_none_right_eq_some] at admitted
  obtain ⟨valid, found⟩ := admitted
  have oldShort : oldLogical.length < maxFilenameLength :=
    length_of_validateFilename (Bool.and_eq_true_iff.mp valid).1
  obtain ⟨_, named⟩ := ssFindFile_filename found
  have atContent : rec.filepath = contentPath ss.storagePath oldLogical := by
    rw [placed.filepath_eq, named]
  have metaFits :=
    fun name =>
      snprintf_contentPath short name (by decide : ssMetaSuffix.length ≤ 5)
  have undoFits :=
    fun name =>
      snprintf_contentPath short name (by decide : ssUndoSuffix.length ≤ 5)
  rw [placed.metapath_eq, placed.undopath_eq, atContent] at clear
  rw [placed.undopath_eq, atContent]
  rw [atContent] at present
  have renamed :=
    renameRecord_undisturbed undisturbed now newLogical
      (physicalNameOf newLogical) _ newPath rec present
  simp only at renamed
  generalize diskEq : movedDisk ss.disk _ _ _ _ _ _ _ = disk at renamed
  have handled :
      nsRename now (ssRenameMessage oldLogical newLogical) ss =
        .ok ()
          { ss with
            files := storeRecord newRecord ss.files
            disk := disk
            sent := ss.sent ++ [⟨.nameServer, [str "OK"]⟩] } := by
    simp only [nsRename, ssRenameMessage, bind_apply, ensure_apply, valid,
      ssHandleRename_apply now oldShort, found, ↓reduceIte]
    simp only [newPath] at renamed
    simp only [renamed, ↓reduceIte, send_apply]
    rfl
  have accepted :
      Accepted ss ⟨now, .ssRename oldLogical newLogical⟩ = true := by
    simp only [Accepted, SsEvent.handler, handled]
  have stepped :
      ssStep ss ⟨now, .ssRename oldLogical newLogical⟩ =
        { ss with
          files := storeRecord newRecord ss.files
          disk := disk
          sent := ss.sent ++ [⟨.nameServer, [str "OK"]⟩] } := by
    simp only [ssStep, SsEvent.handler, handled]
  refine ⟨accepted, disk, _, stepped, ?_, ?_⟩
  · rw [← diskEq]
    refine bytesAt_movedDisk_content undisturbed present ?_ _
    simpa [newPath, metaFits, undoFits, metaNonempty, undoNonempty]
      using clear
  · intro snapshot kept
    have apart :=
      append_meta_ne_append_undo (contentPath ss.storagePath newLogical)
    rw [← undoFits oldLogical] at kept
    have arrived :
        disk.bytesAt (snprintf maxPathLength (newPath ++ ssUndoSuffix)) =
          some snapshot := by
      rw [← diskEq]
      refine bytesAt_movedDisk_snapshot undisturbed kept ?_ ?_ _
      · simp only [List.mem_cons, List.not_mem_nil, or_false, not_or]
          at clear
        simp [newPath, metaFits, undoFits, undoNonempty, Ne.symm clear.2,
          (append_meta_ne_append_undo _ _).symm]
      · simp [newPath, metaFits, undoFits, (apart _).symm]
    simpa only [newPath, undoFits] using arrived

end DistributedDocs
