import DistributedDocs.ProgramRules
import DistributedDocs.StorageServer

namespace DistributedDocs

/-!
# What a handler may touch

Each handler works on one record.  Its scope names that record, the paths it
may write, remove or rename, and what the record may become; everything else
is as before, however the disk operations end.
-/

/-- The scope of a handler. -/
structure Scope where
  /-- The address of the record it works on. -/
  target : Nat
  /-- The paths it may write, remove or rename. -/
  footprint : List CString
  /-- What the record may have become. -/
  allowed : FileRecord → Prop
  /-- Whether the session table stays as it is. -/
  keepsSessions : Prop

/-- Nothing outside the scope has changed. -/
structure Effect (scope : Scope) (before after : StorageServer) : Prop where
  storagePath_eq : after.storagePath = before.storagePath
  nextAddress_eq : after.nextAddress = before.nextAddress
  disk_agrees :
    Disk.AgreesOutside scope.footprint before.disk after.disk
  avoids_nul : before.disk.Avoids 0 → after.disk.Avoids 0
  files_stored :
    after.files = before.files ∨
      ∃ r, r.address = scope.target ∧ scope.allowed r ∧
        after.files = storeRecord r before.files
  sessions_eq :
    scope.keepsSessions → after.sessions = before.sessions

/-- The later of two records stored at one address remains. -/
theorem storeRecord_storeRecord
    {first second : FileRecord}
    (same : first.address = second.address)
    (files : List FileRecord) :
    storeRecord second (storeRecord first files) =
      storeRecord second files := by
  simp only [storeRecord, List.map_map]
  apply List.map_congr_left
  intro node _
  simp only [Function.comp_apply]
  by_cases here : node.address = first.address
  · simp [here, same]
  · have notSecond : node.address ≠ second.address := same ▸ here
    simp [here, notSecond]

theorem effect_isEffect (scope : Scope) : IsEffect (Effect scope) where
  refl ss :=
    { storagePath_eq := rfl
      nextAddress_eq := rfl
      disk_agrees := .refl _ _
      avoids_nul := id
      files_stored := Or.inl rfl
      sessions_eq := fun _ => rfl }
  trans earlier later :=
    { storagePath_eq := later.storagePath_eq.trans earlier.storagePath_eq
      nextAddress_eq := later.nextAddress_eq.trans earlier.nextAddress_eq
      disk_agrees := earlier.disk_agrees.trans later.disk_agrees
      avoids_nul := later.avoids_nul ∘ earlier.avoids_nul
      files_stored := by
        rcases later.files_stored with kept | ⟨r, atTarget, allowed, stored⟩
        · rw [kept]
          exact earlier.files_stored
        · refine Or.inr ⟨r, atTarget, allowed, ?_⟩
          rcases earlier.files_stored with kept | ⟨q, sameTarget, _, before⟩
          · rw [stored, kept]
          · rw [stored, before,
              storeRecord_storeRecord (sameTarget.trans atTarget.symm)]
      sessions_eq := fun keeps =>
        (later.sessions_eq keeps).trans (earlier.sessions_eq keeps) }

theorem mem_storeRecord
    {rec r : FileRecord}
    {files : List FileRecord}
    (member : r ∈ storeRecord rec files) :
    r ∈ files ∧ r.address ≠ rec.address ∨ r = rec := by
  obtain ⟨node, present, rfl⟩ := List.mem_map.mp member
  by_cases here : node.address = rec.address
  · simp [here]
  · simp [here, present]

theorem mem_storeRecord_of_ne
    {rec r : FileRecord}
    {files : List FileRecord}
    (other : r.address ≠ rec.address) :
    r ∈ storeRecord rec files ↔ r ∈ files := by
  constructor
  · intro member
    rcases mem_storeRecord member with ⟨present, _⟩ | rfl
    · exact present
    · exact absurd rfl other
  · intro member
    exact List.mem_map.mpr ⟨r, member, if_neg other⟩

@[simp] theorem addresses_storeRecord
    (rec : FileRecord)
    (files : List FileRecord) :
    (storeRecord rec files).map FileRecord.address =
      files.map FileRecord.address := by
  rw [storeRecord, List.map_map]
  apply List.map_congr_left
  intro node _
  simp only [Function.comp_apply]
  split
  · next same => exact same.symm
  · rfl

namespace StaysWithin

variable {scope : Scope}

theorem onDisk
    {α : Type}
    {operation : Disk CString → α × Disk CString}
    (agrees :
      ∀ disk,
        Disk.AgreesOutside scope.footprint disk (operation disk).2)
    (avoids : ∀ disk, disk.Avoids 0 → (operation disk).2.Avoids 0) :
    StaysWithin (Effect scope) (DistributedDocs.onDisk operation) := by
  apply modifyGet
  intro ss
  exact
    { storagePath_eq := rfl
      nextAddress_eq := rfl
      disk_agrees := agrees ss.disk
      avoids_nul := avoids ss.disk
      files_stored := Or.inl rfl
      sessions_eq := fun _ => rfl }

theorem send (receiver : Peer) (fields : List CString) :
    StaysWithin (Effect scope) (DistributedDocs.send receiver fields) :=
  fun _ =>
    { storagePath_eq := rfl
      nextAddress_eq := rfl
      disk_agrees := .refl _ _
      avoids_nul := id
      files_stored := Or.inl rfl
      sessions_eq := fun _ => rfl }

theorem modifySessions
    (change : List WriteSession → List WriteSession)
    (mayChange : ¬scope.keepsSessions) :
    StaysWithin (Effect scope) (DistributedDocs.modifySessions change) :=
  fun _ =>
    { storagePath_eq := rfl
      nextAddress_eq := rfl
      disk_agrees := .refl _ _
      avoids_nul := id
      files_stored := Or.inl rfl
      sessions_eq := fun keeps => absurd keeps mayChange }

theorem refuse {α : Type} (code : Int) (text : String) :
    StaysWithin (Effect scope)
      (DistributedDocs.refuse code text : Handler α) :=
  StaysWithin.throw (effect_isEffect scope) _

theorem ensure
    (condition : Bool)
    {otherwise : Handler Unit}
    (within : StaysWithin (Effect scope) otherwise) :
    StaysWithin (Effect scope)
      (DistributedDocs.ensure condition otherwise) :=
  .ite (.pure (effect_isEffect scope) _) within

theorem ssReadFileContent (path : CString) :
    StaysWithin (Effect scope) (DistributedDocs.ssReadFileContent path) :=
  .bind (effect_isEffect scope)
    (.onDisk
      (fun disk => (Disk.agreesOutside_read path disk).mono (by simp))
      fun _ avoids => Disk.avoids_read avoids path)
    fun _ => .pure (effect_isEffect scope) _

theorem ssWriteFileContent
    {path : CString}
    (data : CString)
    (inside : path ∈ scope.footprint) :
    StaysWithin (Effect scope)
      (DistributedDocs.ssWriteFileContent path data) :=
  .bind (effect_isEffect scope)
    (.onDisk
      (fun disk =>
        (Disk.agreesOutside_write path _ disk).mono (by simpa using inside))
      fun _ avoids =>
        Disk.avoids_write avoids (nul_not_mem_rawBytes data) path)
    fun _ => .pure (effect_isEffect scope) _

theorem ssCopyFile
    (srcPath : CString)
    {destPath : CString}
    (inside : destPath ∈ scope.footprint) :
    StaysWithin (Effect scope)
      (DistributedDocs.ssCopyFile srcPath destPath) :=
  .onDisk
    (fun disk =>
      (Disk.agreesOutside_copy srcPath destPath disk).mono
        (by simpa using inside))
    fun _ avoids => Disk.avoids_copy avoids srcPath destPath

theorem unlink
    {path : CString}
    (inside : path ∈ scope.footprint) :
    StaysWithin (Effect scope) (DistributedDocs.unlink path) :=
  fun ss =>
    { storagePath_eq := rfl
      nextAddress_eq := rfl
      disk_agrees :=
        (Disk.agreesOutside_unlink path ss.disk).mono (by simpa using inside)
      avoids_nul := fun avoids => Disk.avoids_unlink avoids path
      files_stored := Or.inl rfl
      sessions_eq := fun _ => rfl }

theorem rename
    {old new : CString}
    (oldInside : old ∈ scope.footprint)
    (newInside : new ∈ scope.footprint) :
    StaysWithin (Effect scope) (DistributedDocs.rename old new) :=
  .onDisk
    (fun disk =>
      (Disk.agreesOutside_rename old new disk).mono
        (by simp [oldInside, newInside]))
    fun _ avoids => Disk.avoids_rename avoids old new

theorem ssFileExists (path : CString) :
    StaysWithin (Effect scope) (DistributedDocs.ssFileExists path) :=
  fun ss => (effect_isEffect scope).refl ss

theorem ssWriteMetadata
    {rec : FileRecord}
    (inside : rec.metapath ∈ scope.footprint) :
    StaysWithin (Effect scope) (DistributedDocs.ssWriteMetadata rec) :=
  .bind (effect_isEffect scope)
    (.onDisk
      (fun disk =>
        (Disk.agreesOutside_write _ _ disk).mono (by simpa using inside))
      fun _ avoids =>
        Disk.avoids_write avoids (nul_not_mem_rawBytes _) _)
    fun _ => .pure (effect_isEffect scope) _

theorem ssTouchFileMetadata
    (now : Int)
    {rec : FileRecord}
    (username : Option CString)
    (updateModified : Bool)
    (atTarget : rec.address = scope.target)
    (allowed : scope.allowed (rec.touched now username updateModified))
    (inside : rec.metapath ∈ scope.footprint) :
    StaysWithin (Effect scope)
      (DistributedDocs.ssTouchFileMetadata now rec username
        updateModified) := by
  refine .bind (effect_isEffect scope) (.modify ?_)
    fun _ => .bind (effect_isEffect scope) (.ssWriteMetadata inside)
      fun _ => .pure (effect_isEffect scope) _
  intro ss
  exact
    { storagePath_eq := rfl
      nextAddress_eq := rfl
      disk_agrees := .refl _ _
      avoids_nul := id
      files_stored :=
        Or.inr ⟨rec.touched now username updateModified, atTarget, allowed,
          rfl⟩
      sessions_eq := fun _ => rfl }

theorem getFileSize (path : CString) :
    StaysWithin (Effect scope) (DistributedDocs.getFileSize path) := by
  intro ss
  have unchanged :
      finalState (DistributedDocs.getFileSize path ss) = ss := by
    unfold DistributedDocs.getFileSize
    cases found : ss.disk.bytesAt path <;>
      simp [found, finalState]
  rw [unchanged]
  exact (effect_isEffect scope).refl ss

theorem ssSyncMetadataToNs (rec : FileRecord) :
    StaysWithin (Effect scope) (DistributedDocs.ssSyncMetadataToNs rec) :=
  .bind (effect_isEffect scope) (.getFileSize _) fun _ =>
    .bind (effect_isEffect scope) (.ssReadFileContent _) fun _ =>
      .send _ _

theorem forM
    {list : List CString}
    {program : CString → Handler Unit}
    (each :
      ∀ path ∈ list, StaysWithin (Effect scope) (program path)) :
    StaysWithin (Effect scope) (list.forM program) := by
  induction list with
  | nil =>
      exact .pure (effect_isEffect scope) _
  | cons path rest inductionHypothesis =>
      exact .bind (effect_isEffect scope) (each path (by simp)) fun _ =>
        inductionHypothesis fun other member => each other (by simp [member])

end StaysWithin

/-! ## The handlers, from the record on -/

/-- The scope of a command that leaves records and disk alone. -/
def noScope (keepsSessions : Prop) : Scope where
  target := 0
  footprint := []
  allowed := fun _ => False
  keepsSessions := keepsSessions

/-- The record keeps its name and its paths, but for new checkpoints. -/
structure FileRecord.KeepsNames
    (rec : FileRecord)
    (extra : List CString)
    (keepsUndo : Prop)
    (r : FileRecord) : Prop where
  filename_eq : r.filename = rec.filename
  filepath_eq : r.filepath = rec.filepath
  metapath_eq : r.metapath = rec.metapath
  undopath_eq : r.undopath = rec.undopath
  checkpoints_sublist :
    (r.checkpoints.map CheckpointRecord.filepath).Sublist
      (rec.checkpoints.map CheckpointRecord.filepath ++ extra)
  undoAvailable_eq : keepsUndo → r.undoAvailable = rec.undoAvailable

theorem FileRecord.KeepsNames.paths_sublist
    {rec r : FileRecord}
    {extra : List CString}
    {keepsUndo : Prop}
    (keeps : rec.KeepsNames extra keepsUndo r) :
    r.paths.Sublist (rec.paths ++ extra) := by
  simp only [FileRecord.paths, keeps.filepath_eq, keeps.metapath_eq,
    keeps.undopath_eq, List.append_assoc]
  exact (List.Sublist.refl _).append keeps.checkpoints_sublist

theorem FileRecord.KeepsNames.wellPlaced
    {rec r : FileRecord}
    {extra : List CString}
    {keepsUndo : Prop}
    {storagePath : CString}
    (keeps : rec.KeepsNames extra keepsUndo r)
    (placed : rec.WellPlaced storagePath) :
    r.WellPlaced storagePath where
  filepath_eq := by rw [keeps.filepath_eq, keeps.filename_eq, placed.filepath_eq]
  metapath_eq := by rw [keeps.metapath_eq, keeps.filepath_eq, placed.metapath_eq]
  undopath_eq := by rw [keeps.undopath_eq, keeps.filepath_eq, placed.undopath_eq]

/-- A touched record keeps its name and its paths. -/
theorem FileRecord.keepsNames_touched
    (now : Int)
    (username : Option CString)
    (updateModified : Bool)
    (rec : FileRecord)
    {keepsUndo : Prop}
    {undoAvailable : Int}
    (undoKept : keepsUndo → undoAvailable = rec.undoAvailable) :
    rec.KeepsNames [] keepsUndo
      (FileRecord.touched now username updateModified
        { rec with undoAvailable := undoAvailable }) where
  filename_eq := rfl
  filepath_eq := rfl
  metapath_eq := rfl
  undopath_eq := rfl
  checkpoints_sublist := by simp [FileRecord.touched]
  undoAvailable_eq := undoKept

/-- The scope of a handler that rewrites the content of a record. -/
def contentScope (rec : FileRecord) (keepsSessions : Prop) : Scope where
  target := rec.address
  footprint := [rec.filepath, rec.metapath, rec.undopath]
  allowed := rec.KeepsNames [] False
  keepsSessions := keepsSessions

theorem lockSentence_within
    (fd : Nat)
    (username indexField : CString)
    (sentenceIndex : Int)
    (rec : FileRecord) :
    StaysWithin (Effect (noScope False))
      (lockSentence fd username indexField sentenceIndex rec) := by
  have isEffect := effect_isEffect (noScope False)
  unfold lockSentence
  refine .bind isEffect (.ensure _ (.refuse _ _)) fun _ => ?_
  refine .bind isEffect (.get isEffect) fun _ => ?_
  refine .bind isEffect (.ensure _ (.refuse _ _)) fun _ => ?_
  refine .bind isEffect (.ssReadFileContent _) fun fileData => ?_
  split
  · split
    · refine .bind isEffect
        (.modifySessions _ (by simp [noScope])) fun _ => ?_
      exact .bind isEffect (.send _ _) fun _ => .send _ _
    · exact .refuse _ _
  · exact .refuse _ _

theorem handleClientWriteLock_within (fd : Nat) (msg : List CString) :
    StaysWithin (Effect (noScope False)) (handleClientWriteLock fd msg) := by
  have isEffect := effect_isEffect (noScope False)
  unfold handleClientWriteLock
  split
  · split
    · refine .bind isEffect (.ensure _ (.refuse _ _)) fun _ => ?_
      refine .bind isEffect
        (.modifySessions _ (by simp [noScope])) fun _ => ?_
      refine .bind isEffect (.get isEffect) fun _ => ?_
      split
      · exact lockSentence_within _ _ _ _ _
      · exact .refuse _ _
    · exact .refuse _ _
  · exact .refuse _ _

theorem handleClientWriteData_within (fd : Nat) (msg : List CString) :
    StaysWithin (Effect (noScope False)) (handleClientWriteData fd msg) := by
  have isEffect := effect_isEffect (noScope False)
  unfold handleClientWriteData
  split
  · split
    · refine .bind isEffect (.ensure _ (.refuse _ _)) fun _ => ?_
      refine .bind isEffect (.get isEffect) fun _ => ?_
      split
      · split
        · exact .bind isEffect (.modifySessions _ (by simp [noScope]))
            fun _ => .send _ _
        · exact .refuse _ _
      · exact .refuse _ _
    · exact .refuse _ _
  · exact .refuse _ _

theorem clientDisconnected_within (fd : Nat) :
    StaysWithin (Effect (noScope False)) (clientDisconnected fd) :=
  .modifySessions _ (by simp [noScope])

theorem undoRecord_within
    (now : Int)
    (fd : Nat)
    (username : CString)
    (rec : FileRecord) :
    StaysWithin (Effect (contentScope rec True))
      (undoRecord now fd username rec) := by
  have isEffect := effect_isEffect (contentScope rec True)
  unfold undoRecord
  refine .bind isEffect (.ssFileExists _) fun _ => ?_
  refine .bind isEffect (.ensure _ (.refuse _ _)) fun _ => ?_
  refine .bind isEffect (.ssReadFileContent _) fun undoContent => ?_
  split
  · refine .bind isEffect
      (.ssWriteFileContent _ (by simp [contentScope])) fun _ => ?_
    refine .bind isEffect (.ensure _ (.refuse _ _)) fun _ => ?_
    refine .bind isEffect
      (.ssTouchFileMetadata _ _ _ rfl (FileRecord.keepsNames_touched _ _ _ rec False.elim)
        (by simp [contentScope])) fun _ => ?_
    exact .send _ _
  · exact .refuse _ _

theorem revertRecord_within
    (now : Int)
    (fd : Nat)
    (username tag : CString)
    (rec : FileRecord) :
    StaysWithin (Effect (contentScope rec True))
      (revertRecord now fd username tag rec) := by
  have isEffect := effect_isEffect (contentScope rec True)
  unfold revertRecord
  split
  · refine .bind isEffect (.ssFileExists _) fun _ => ?_
    refine .bind isEffect (.ensure _ (.refuse _ _)) fun _ => ?_
    refine .bind isEffect
      (.ssCopyFile _ (by simp [contentScope])) fun _ => ?_
    refine .bind isEffect (.ensure _ (.refuse _ _)) fun _ => ?_
    refine .bind isEffect
      (.ssCopyFile _ (by simp [contentScope])) fun _ => ?_
    refine .bind isEffect (.ensure _ ?_) fun _ => ?_
    · exact .bind isEffect (.ssCopyFile _ (by simp [contentScope]))
        fun _ => .refuse _ _
    · refine .bind isEffect
        (.ssTouchFileMetadata _ _ _ rfl
          (FileRecord.keepsNames_touched _ _ _ rec False.elim)
          (by simp [contentScope])) fun _ => ?_
      exact .send _ _
  · exact .refuse _ _

theorem commitSession_within
    (now : Int)
    (fd : Nat)
    (session : WriteSession)
    (rec : FileRecord) :
    StaysWithin (Effect (contentScope rec False))
      (commitSession now fd session rec) := by
  have isEffect := effect_isEffect (contentScope rec False)
  unfold commitSession
  refine .bind isEffect (.ssReadFileContent _) fun snapshot => ?_
  split
  · refine .bind isEffect (.ensure _ (.refuse _ _)) fun _ => ?_
    refine .bind isEffect
      (.ssWriteFileContent _ (by simp [contentScope])) fun _ => ?_
    refine .bind isEffect (.ensure _ (.refuse _ _)) fun _ => ?_
    refine .bind isEffect
      (.ssWriteFileContent _ (by simp [contentScope])) fun _ => ?_
    refine .bind isEffect (.ensure _ (.refuse _ _)) fun _ => ?_
    refine .bind isEffect
      (.ssTouchFileMetadata _ _ _ rfl (FileRecord.keepsNames_touched _ _ _ rec False.elim)
        (by simp [contentScope])) fun _ => ?_
    refine .bind isEffect
      (.modifySessions _ (by simp [contentScope])) fun _ => ?_
    refine .bind isEffect
      (.modifySessions _ (by simp [contentScope])) fun _ => ?_
    exact .bind isEffect (.send _ _) fun _ => .ssSyncMetadataToNs _
  · exact .refuse _ _

/-- The scope of a checkpoint taken into `ckptPath`. -/
def checkpointScope (rec : FileRecord) (ckptPath : CString) : Scope where
  target := rec.address
  footprint :=
    ckptPath :: rec.metapath ::
      rec.checkpoints.map CheckpointRecord.filepath
  allowed := rec.KeepsNames [ckptPath] True
  keepsSessions := True

/-- Pruning drops the oldest checkpoint or nothing. -/
theorem returns_pruneIfFull (rec : FileRecord) :
    Returns
      (fun pruned => ∃ checkpoints,
        checkpoints.Sublist rec.checkpoints ∧
          pruned = { rec with checkpoints := checkpoints })
      (pruneIfFull rec) := by
  intro ss pruned after outcome
  unfold pruneIfFull at outcome
  split at outcome
  · cases full : rec.checkpoints with
    | nil =>
        simp only [full] at outcome
        cases outcome
        exact ⟨rec.checkpoints, by simp [full], rfl⟩
    | cons oldest others =>
        simp only [full] at outcome
        cases outcome
        exact ⟨others, List.sublist_cons_self _ _, rfl⟩
  · cases outcome
    exact ⟨rec.checkpoints, List.Sublist.refl _, rfl⟩

theorem pruneIfFull_within
    (rec : FileRecord)
    (ckptPath : CString) :
    StaysWithin (Effect (checkpointScope rec ckptPath))
      (pruneIfFull rec) := by
  have isEffect := effect_isEffect (checkpointScope rec ckptPath)
  unfold pruneIfFull
  refine .ite ?_ (.pure isEffect _)
  split
  · exact .pure isEffect _
  · next oldest others full =>
    exact .bind isEffect (.unlink (by simp [checkpointScope, full]))
      fun _ => .pure isEffect _

theorem checkpointRecord_within
    (now : Int)
    (fd : Nat)
    {storagePath tag ckptPath : CString}
    (username : CString)
    {rec : FileRecord}
    (built : checkpointPath storagePath rec now tag = some ckptPath) :
    StaysWithin (Effect (checkpointScope rec ckptPath))
      (checkpointRecord now fd storagePath username tag rec) := by
  have isEffect := effect_isEffect (checkpointScope rec ckptPath)
  have short : ckptPath.length < maxPathLength :=
    length_lt_of_buildPath built
  unfold checkpointRecord
  rw [built]
  refine .bind isEffect (.ensure _ (.refuse _ _)) fun _ => ?_
  refine .bind isEffect
    (.ssCopyFile _ (by simp [checkpointScope])) fun _ => ?_
  refine .bind isEffect (.ensure _ ?_) fun _ => ?_
  · exact .bind isEffect (.unlink (by simp [checkpointScope]))
      fun _ => .refuse _ _
  · refine .bind_returns isEffect (pruneIfFull_within rec ckptPath)
      (returns_pruneIfFull rec) ?_
    rintro pruned ⟨checkpoints, kept, rfl⟩
    refine .bind isEffect
      (.ssTouchFileMetadata _ _ _ rfl
        ⟨rfl, rfl, rfl, rfl, ?_, fun _ => rfl⟩
        (by simp [checkpointScope])) fun _ => .send _ _
    simp only [FileRecord.touched, List.map_append, List.map_cons,
      List.map_nil, safeStrcpy_of_short short]
    exact (kept.map _).append (List.Sublist.refl _)

/-- The path a checkpoint is taken into, if it is not refused right away. -/
def snapshotPath
    (storagePath : CString)
    (now : Int)
    (tag : CString)
    (rec : FileRecord) : Option CString :=
  if (ssFindCheckpoint rec tag).isNone then
    checkpointPath storagePath rec now tag
  else
    none

theorem checkpointRecord_refused
    (now : Int)
    (fd : Nat)
    {storagePath tag : CString}
    (username : CString)
    {rec : FileRecord}
    (noPath : snapshotPath storagePath now tag rec = none)
    (ss : StorageServer) :
    ∃ refusal,
      checkpointRecord now fd storagePath username tag rec ss =
        .error refusal ss := by
  unfold snapshotPath at noPath
  cases known : ssFindCheckpoint rec tag with
  | some ckpt =>
      simp [checkpointRecord, known]
  | none =>
      simp only [known, Option.isNone_none, ↓reduceIte] at noPath
      simp [checkpointRecord, known, noPath]

/-- The scope of a rename between two content paths. -/
def renameScope
    (rec : FileRecord)
    (newLogical newFlat currentPath newPath : CString) : Scope where
  target := rec.address
  footprint :=
    [ currentPath, newPath,
      snprintf maxPathLength (currentPath ++ ssMetaSuffix),
      snprintf maxPathLength (newPath ++ ssMetaSuffix),
      snprintf maxPathLength (currentPath ++ ssUndoSuffix),
      snprintf maxPathLength (newPath ++ ssUndoSuffix) ]
  allowed := fun r =>
    ∃ now,
      r =
        (rec.renamed newLogical newFlat newPath
          (snprintf maxPathLength (newPath ++ ssMetaSuffix))
          (snprintf maxPathLength
            (newPath ++ ssUndoSuffix))).touched now none true
  keepsSessions := True

theorem renameRecord_within
    (now : Int)
    (newLogical newFlat currentPath newPath : CString)
    (rec : FileRecord) :
    StaysWithin
      (Effect (renameScope rec newLogical newFlat currentPath newPath))
      (renameRecord now newLogical newFlat currentPath newPath rec) := by
  have isEffect :=
    effect_isEffect
      (renameScope rec newLogical newFlat currentPath newPath)
  have metaKept :
      (rec.renamed newLogical newFlat newPath
          (snprintf maxPathLength (newPath ++ ssMetaSuffix))
          (snprintf maxPathLength (newPath ++ ssUndoSuffix))).metapath =
        snprintf maxPathLength (newPath ++ ssMetaSuffix) := by
    simp [FileRecord.renamed, safeStrcpy, snprintf, List.take_take]
  unfold renameRecord
  refine .bind isEffect
    (.rename (by simp [renameScope]) (by simp [renameScope])) fun _ => ?_
  refine .ite ?_ (.pure isEffect _)
  refine .bind isEffect
    (.rename (by simp [renameScope]) (by simp [renameScope])) fun _ => ?_
  refine .bind isEffect
    (.rename (by simp [renameScope]) (by simp [renameScope])) fun _ => ?_
  refine .bind isEffect
    (.ssTouchFileMetadata now _ _ rfl ⟨now, rfl⟩ ?_)
    fun _ => .pure isEffect _
  rw [metaKept]
  simp [renameScope]

/-- The scope of a copy into a record. -/
def copyScope (destRec : FileRecord) : Scope where
  target := destRec.address
  footprint :=
    [copyTempPath destRec, destRec.filepath, destRec.metapath]
  allowed := destRec.KeepsNames [] True
  keepsSessions := True

theorem receiveChunks_within
    {scope : Scope}
    {tempPath : CString}
    (inside : tempPath ∈ scope.footprint)
    (messages : List (Option (List CString))) :
    StaysWithin (Effect scope) (receiveChunks tempPath messages) := by
  have isEffect := effect_isEffect scope
  induction messages with
  | nil =>
      exact .pure isEffect _
  | cons message rest inductionHypothesis =>
      match message with
      | none =>
          exact .pure isEffect _
      | some [] =>
          exact .pure isEffect _
      | some (type :: arguments) =>
          unfold receiveChunks
          refine .ite (.ite (.pure isEffect _)
            (.ite (.pure isEffect _) (.pure isEffect _))) (.ite ?_
              (.ite (.pure isEffect _) inductionHypothesis))
          match arguments with
          | [] =>
              exact inductionHypothesis
          | [] :: _ =>
              exact inductionHypothesis
          | (c :: chunk) :: _ =>
              refine .bind isEffect (.onDisk (fun disk => ?_) ?_)
                fun _ => .ite inductionHypothesis (.pure isEffect _)
              · exact (Disk.agreesOutside_append _ _ disk).mono
                  (by simpa using inside)
              · exact fun _ avoids =>
                  Disk.avoids_append avoids (nul_not_mem_rawBytes _) _

theorem fetchSource_within
    {scope : Scope}
    {tempPath : CString}
    (inside : tempPath ∈ scope.footprint)
    (peer : PeerSession)
    (srcRec : Option FileRecord) :
    StaysWithin (Effect scope) (fetchSource peer srcRec tempPath) := by
  have isEffect := effect_isEffect scope
  cases srcRec with
  | some rec =>
      exact .bind isEffect (.ssCopyFile _ inside) fun _ =>
        .ite (.pure isEffect _) (.pure isEffect _)
  | none =>
      cases peer with
      | unreachable =>
          exact .pure isEffect _
      | requestNotSent =>
          exact .pure isEffect _
      | answers messages =>
          refine .bind isEffect (.onDisk (fun disk => ?_) ?_) fun _ =>
            .ite (.pure isEffect _)
              (.bind isEffect (receiveChunks_within inside messages)
                fun _ => .bind isEffect (.ensure _ (.unlink inside))
                  fun _ => .pure isEffect _)
          · exact (Disk.agreesOutside_write _ _ disk).mono
              (by simpa using inside)
          · exact fun _ avoids => Disk.avoids_write avoids (by simp) _

theorem copyInto_within
    (now : Int)
    (peer : PeerSession)
    (username : CString)
    (srcRec : Option FileRecord)
    (destRec : FileRecord) :
    StaysWithin (Effect (copyScope destRec))
      (copyInto now peer username srcRec destRec) := by
  have isEffect := effect_isEffect (copyScope destRec)
  unfold copyInto
  refine .bind isEffect (.unlink (by simp [copyScope])) fun _ => ?_
  refine .bind isEffect
    (fetchSource_within (by simp [copyScope]) _ _) fun failure => ?_
  cases failure with
  | some refusal =>
      exact .bind isEffect (.unlink (by simp [copyScope])) fun _ =>
        .throw isEffect _
  | none =>
      refine .bind isEffect
        (.rename (by simp [copyScope]) (by simp [copyScope])) fun _ => ?_
      refine .bind isEffect (.ensure _ ?_) fun _ => ?_
      · exact .bind isEffect (.unlink (by simp [copyScope])) fun _ =>
          .refuse _ _
      · refine .bind isEffect
          (.ssTouchFileMetadata _ _ _ rfl
            (FileRecord.keepsNames_touched _ _ _ destRec fun _ => rfl)
            (by simp [copyScope])) fun _ => ?_
        exact .bind isEffect (.ssSyncMetadataToNs _) fun _ => .send _ _

/-- What setting up a new record may write. -/
def newScope (newRecord : FileRecord) : Scope where
  target := newRecord.address
  footprint := [newRecord.filepath, newRecord.metapath]
  allowed := fun _ => False
  keepsSessions := True

/-- A new record is added once its file has been created. -/
theorem addRecord_effect (newRecord : FileRecord) (ss : StorageServer) :
    ∃ middle,
      Effect (newScope newRecord) ss middle ∧
        (addRecord newRecord ss = .ok false middle ∨
          addRecord newRecord ss =
            .ok true
              { middle with
                files := newRecord :: middle.files
                nextAddress := middle.nextAddress + 1 }) := by
  have isEffect := effect_isEffect (newScope newRecord)
  have created :
      StaysWithin (Effect (newScope newRecord))
        (onDisk (Disk.write newRecord.filepath [])) :=
    .onDisk
      (fun disk =>
        (Disk.agreesOutside_write _ _ disk).mono (by simp [newScope]))
      fun _ avoids => Disk.avoids_write avoids (by simp) _
  have described :
      StaysWithin (Effect (newScope newRecord))
        (ssWriteMetadata newRecord) :=
    .ssWriteMetadata (by simp [newScope])
  have first := created ss
  have second := isEffect.trans first (described _)
  simp only [ssWriteMetadata, bind_apply, onDisk_apply, pure_apply,
    finalState_ok] at first second
  simp only [addRecord, bind_apply, onDisk_apply]
  by_cases refused :
      (ss.disk.write newRecord.filepath []).1 = .notOpened
  · simp only [refused, ↓reduceIte]
    exact ⟨_, first, Or.inl rfl⟩
  · simp only [refused, ↓reduceIte, ssWriteMetadata, bind_apply,
      onDisk_apply, pure_apply, modify_apply]
    exact ⟨_, second, Or.inr rfl⟩

/-- What removing a record may unlink. -/
def removeScope (node : FileRecord) : Scope where
  target := node.address
  footprint := node.paths
  allowed := fun _ => False
  keepsSessions := True

/-- A record is taken off the list once its files have been unlinked. -/
theorem removeRecord_effect (node : FileRecord) (ss : StorageServer) :
    ∃ middle,
      Effect (removeScope node) ss middle ∧
        removeRecord node ss =
          .ok ()
            { middle with
              files := middle.files.eraseP fun r =>
                r.address = node.address } := by
  have unlinked :
      StaysWithin (Effect (removeScope node)) (node.paths.forM unlink) :=
    .forM fun path member => .unlink member
  have first := unlinked ss
  have succeeds :
      ∀ (list : List CString) (start : StorageServer),
        ∃ middle, list.forM unlink start = .ok () middle := by
    intro list
    induction list with
    | nil =>
        intro start
        exact ⟨start, rfl⟩
    | cons path rest inductionHypothesis =>
        intro start
        exact inductionHypothesis _
  obtain ⟨middle, ended⟩ := succeeds node.paths ss
  rw [ended] at first
  refine ⟨middle, first, ?_⟩
  simp only [removeRecord, bind_apply]
  simp only [ended, modify_apply]

end DistributedDocs
