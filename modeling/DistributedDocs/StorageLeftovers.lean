import DistributedDocs.GuardedRun
import DistributedDocs.StorageRequests
import DistributedDocs.StorageUndo

namespace DistributedDocs

/-!
# Nothing is left behind on the disk

On a disk whose operations succeed every file belongs to a record: its content,
its sidecar, its snapshot for `UNDO` or one of its checkpoints.  What a command
gives up it also removes.
-/

/-- Every file on the disk is one of a record. -/
def NothingLeft (ss : StorageServer) : Prop :=
  ∀ path,
    (ss.disk.bytesAt path).isSome = true →
      ∃ rec ∈ ss.files, path ∈ rec.paths

namespace NothingLeft

variable
  {ss after : StorageServer}
  (nothingLeft : NothingLeft ss)

include nothingLeft

/-- No record changes, and no new file appears. -/
theorem of_same
    (files : after.files = ss.files)
    (stored :
      ∀ path, (after.disk.bytesAt path).isSome = true →
        (ss.disk.bytesAt path).isSome = true) :
    NothingLeft after := by
  intro path present
  rw [files]
  exact nothingLeft path (stored path present)

/-- One record is stored anew, and what it gives up is gone. -/
theorem of_stored
    {rec changed : FileRecord}
    (addresses : (ss.files.map FileRecord.address).Nodup)
    (present : rec ∈ ss.files)
    (files : after.files = storeRecord changed ss.files)
    (address : changed.address = rec.address)
    (stored :
      ∀ path, path ∉ changed.paths →
        (after.disk.bytesAt path).isSome = true →
          (ss.disk.bytesAt path).isSome = true ∧ path ∉ rec.paths) :
    NothingLeft after := by
  intro path found
  rw [files]
  by_cases own : path ∈ changed.paths
  · exact ⟨changed, List.mem_map.mpr ⟨rec, present, if_pos address.symm⟩, own⟩
  · obtain ⟨earlier, givenUp⟩ := stored path own found
    obtain ⟨other, listed, inUse⟩ := nothingLeft path earlier
    refine ⟨other, (mem_storeRecord_of_ne ?_).mpr listed, inUse⟩
    intro same
    have isRec : other = rec :=
      eq_of_address addresses listed present (same.trans address)
    exact givenUp (isRec ▸ inUse)

end NothingLeft

section Steps

variable
  {ss : StorageServer}
  (placed : RecordsPlaced ss)
  (undisturbed : ss.disk.outcomes = [])
  (nothingLeft : NothingLeft ss)

include placed nothingLeft

/-- Content and snapshot of a record have been written, and its sidecar. -/
theorem NothingLeft.of_rewritten
    {after : StorageServer}
    {rec changed : FileRecord}
    (present : rec ∈ ss.files)
    (files : after.files = storeRecord changed ss.files)
    (address : changed.address = rec.address)
    (paths : changed.paths = rec.paths)
    (written :
      ∀ path, path ∉ [rec.filepath, rec.metapath, rec.undopath] →
        (after.disk.bytesAt path).isSome = true →
          (ss.disk.bytesAt path).isSome = true) :
    NothingLeft after := by
  refine nothingLeft.of_stored placed.addresses_nodup present files address
    fun path outside found => ?_
  rw [paths] at outside
  refine ⟨written path (fun own => outside ?_) found, outside⟩
  exact List.mem_append_left _ own

/-- A checkpoint is added, and the oldest one goes if there are too many. -/
theorem NothingLeft.of_checkpointed
    {after : StorageServer}
    {rec : FileRecord}
    {now : Int}
    {username tag ckptPath : CString}
    {bytes : RawBytes}
    {description : CString}
    (present : rec ∈ ss.files)
    (files :
      after.files =
        storeRecord (rec.checkpointed now username tag ckptPath) ss.files)
    (disk :
      after.disk =
        rec.diskAfterCheckpoint ss.disk bytes ckptPath description) :
    NothingLeft after := by
  have checkpoints :
      rec.checkpoints.map CheckpointRecord.filepath =
        rec.evictedPaths ++
          rec.keptCheckpoints.map CheckpointRecord.filepath := by
    unfold FileRecord.evictedPaths FileRecord.keptCheckpoints
    split
    · cases rec.checkpoints <;> simp
    · rfl
  refine nothingLeft.of_stored placed.addresses_nodup present files rfl
    fun path outside found => ?_
  simp only [FileRecord.paths, FileRecord.checkpointed, FileRecord.touched,
    List.mem_append, List.mem_cons, List.not_mem_nil, or_false, List.map_append,
    List.map_cons, List.map_nil, not_or] at outside
  obtain ⟨⟨notContent, notMeta, notUndo⟩, notKept, notNew⟩ := outside
  rw [disk, FileRecord.diskAfterCheckpoint, Disk.bytesAt_set_of_ne notMeta,
    Disk.bytesAt_clear] at found
  split at found
  · cases found
  · next notEvicted =>
    rw [Disk.bytesAt_set_of_ne notNew] at found
    refine ⟨found, ?_⟩
    simp only [FileRecord.paths, checkpoints, List.mem_append, List.mem_cons,
      List.not_mem_nil, or_false, not_or]
    exact ⟨⟨notContent, notMeta, notUndo⟩, notEvicted, notKept⟩

include undisturbed

/-- A record goes elsewhere, and takes its sidecars along. -/
theorem NothingLeft.of_moved
    {after : StorageServer}
    {rec : FileRecord}
    {newLogical : CString}
    {now : Int}
    {description : RawBytes}
    (present : rec ∈ ss.files)
    (valid : validateFilename newLogical = true)
    (files :
      after.files =
        storeRecord (rec.movedTo ss.storagePath newLogical now) ss.files)
    (disk :
      after.disk =
        movedDisk ss.disk rec.filepath
          (contentPath ss.storagePath newLogical) rec.metapath
          (contentPath ss.storagePath newLogical ++ ssMetaSuffix)
          rec.undopath
          (contentPath ss.storagePath newLogical ++ ssUndoSuffix)
          description) :
    NothingLeft after := by
  have wellPlaced := placed.wellPlaced rec present
  have newPaths :
      (rec.movedTo ss.storagePath newLogical now).paths =
        namedPaths ss.storagePath newLogical ++
          rec.checkpoints.map CheckpointRecord.filepath :=
    (paths_renamed ss.storagePath.property (length_of_validateFilename valid)
      now rec).2
  have oldApart : [rec.filepath, rec.metapath, rec.undopath].Nodup := by
    have apart := wellPlaced.undopath_apart
    simp [wellPlaced.metapath_ne, apart.1.symm, apart.2.symm]
  refine nothingLeft.of_stored placed.addresses_nodup present files rfl
    fun path outside found => ?_
  rw [newPaths, List.mem_append, not_or] at outside
  obtain ⟨notNew, notCheckpoint⟩ := outside
  rw [namedPaths] at notNew
  rw [disk] at found
  have notOld : path ∉ [rec.filepath, rec.metapath, rec.undopath] := by
    intro old
    rw [bytesAt_movedDisk_gone undisturbed oldApart old notNew] at found
    cases found
  refine ⟨?_, ?_⟩
  · rwa [(agreesOutside_movedDisk description).bytesAt_eq path ?_] at found
    simp only [List.mem_cons, List.not_mem_nil, or_false, not_or]
      at notNew notOld ⊢
    exact ⟨notOld.1, notNew.1, notOld.2.1, notNew.2.1, notOld.2.2,
      notNew.2.2⟩
  · rw [FileRecord.paths, List.mem_append, not_or]
    exact ⟨notOld, notCheckpoint⟩

/-- Whatever an event does, nothing is left behind. -/
theorem NothingLeft.ssStep (event : SsEvent) :
    NothingLeft (DistributedDocs.ssStep ss event) := by
  have setNone :
      ∀ (cleared : CString) path,
        ((ss.disk.set cleared none).bytesAt path).isSome = true →
          (ss.disk.bytesAt path).isSome = true := by
    intro cleared path found
    by_cases same : path = cleared
    · rw [same, Disk.bytesAt_set_same] at found
      cases found
    · rwa [Disk.bytesAt_set_of_ne same] at found
  cases stepOutcome placed undisturbed event with
  | idle noSubject ends =>
      exact nothingLeft.of_same ends.files_eq fun _ => by
        rw [ends.disk_eq]
        exact id
  | committed isEtirw accepted subject present ends
  | reverted isRevert accepted subject present ends =>
      refine nothingLeft.of_rewritten placed (mem_of_subject subject)
        ends.files_eq rfl rfl fun path outside found => ?_
      simp only [List.mem_cons, List.not_mem_nil, or_false, not_or] at outside
      rwa [ends.disk_eq, FileRecord.diskAfter,
        Disk.bytesAt_set_of_ne outside.2.1, Disk.bytesAt_set_of_ne outside.1,
        Disk.bytesAt_set_of_ne outside.2.2] at found
  | undone isUndo accepted subject available kept ends =>
      refine nothingLeft.of_rewritten placed (mem_of_subject subject)
        ends.files_eq rfl rfl fun path outside found => ?_
      simp only [List.mem_cons, List.not_mem_nil, or_false, not_or] at outside
      rwa [ends.disk_eq, Disk.bytesAt_set_of_ne outside.2.1,
        Disk.bytesAt_set_of_ne outside.1] at found
  | notCheckpointed isCheckpoint refused target ends =>
      exact nothingLeft.of_same ends.files_eq fun path found =>
        setNone _ path (ends.disk_eq ▸ found)
  | checkpointed isCheckpoint accepted target present ends =>
      exact nothingLeft.of_checkpointed placed
        (@checkpointTarget_found _ 0 _ _ _ _ target).1 ends.files_eq ends.disk_eq
  | @renamed oldLogical newLogical rec bytes isRename accepted target present
      ends =>
      simp only [renamedRecord, Option.ite_none_right_eq_some,
        Bool.and_eq_true] at target
      exact nothingLeft.of_moved placed undisturbed
        (ssFindFile_filename target.2).1 target.1.2 ends.files_eq ends.disk_eq
  | notCopied isCopy refused target ends =>
      exact nothingLeft.of_same ends.files_eq fun path found =>
        setNone _ path (ends.disk_eq ▸ found)
  | @copied peer msg srcRec destRec username bytes isCopy accepted target
      ends =>
      refine nothingLeft.of_rewritten placed
        (@copyTarget_found _ peer event.now _ _ _ target).1 ends.files_eq rfl
        rfl fun path outside found => ?_
      simp only [List.mem_cons, List.not_mem_nil, or_false, not_or] at outside
      rw [ends.disk_eq, Disk.bytesAt_set_of_ne outside.2.1,
        Disk.bytesAt_set_of_ne outside.1] at found
      exact setNone _ path found
  | @created msg newRecord isCreate accepted created ends =>
      intro path found
      rw [ends.disk_eq] at found
      rw [ends.files_eq]
      by_cases own : path ∈ newRecord.paths
      · exact ⟨newRecord, List.mem_cons_self, own⟩
      · simp only [FileRecord.paths, List.mem_append, List.mem_cons, not_or]
          at own
        rw [Disk.bytesAt_set_of_ne own.1.2.1, Disk.bytesAt_set_of_ne own.1.1]
          at found
        obtain ⟨rec, listed, inUse⟩ := nothingLeft path found
        exact ⟨rec, List.mem_cons_of_mem _ listed, inUse⟩
  | @deleted msg node isDelete accepted deleted ends =>
      obtain ⟨_, _, _, _, isFound, _⟩ := deletedRecord_found deleted
      have nodePresent := (ssFindFile_filename isFound).1
      intro path found
      rw [ends.disk_eq, Disk.bytesAt_clear] at found
      rw [ends.files_eq]
      split at found
      · cases found
      · next stays =>
        obtain ⟨rec, listed, inUse⟩ := nothingLeft path found
        refine ⟨rec, (List.mem_eraseP_of_neg fun same => stays ?_).mpr listed,
          inUse⟩
        have isNode : rec = node :=
          eq_of_address placed.addresses_nodup listed nodePresent
            (by simpa using same)
        exact isNode ▸ inUse

/-- Nor by a request: it writes the sidecars of records that stay. -/
theorem NothingLeft.ssOperate (operation : StorageOperation) :
    NothingLeft (DistributedDocs.ssOperate ss operation) := by
  cases operation with
  | event event => exact nothingLeft.ssStep placed undisturbed event
  | request now request =>
      have effect := requestEffect ss now request
      obtain ⟨describe, files, same⟩ := effect.files_eq
      have anew := same placed.addresses_nodup
      have stays :
          ∀ rec ∈ ss.files, ∀ path ∈ rec.paths,
            ∃ r ∈ (DistributedDocs.ssOperate ss
              (.request now request)).files, path ∈ r.paths := by
        intro rec listed path inUse
        refine ⟨describe rec, ?_, ?_⟩
        · rw [files]
          exact List.mem_map_of_mem listed
        · rwa [(anew rec listed).paths_eq]
      intro path found
      by_cases sidecar : path ∈ ss.files.map FileRecord.metapath
      · obtain ⟨rec, listed, rfl⟩ := List.mem_map.mp sidecar
        exact stays rec listed _ (by simp [FileRecord.paths])
      · rw [effect.disk_agrees.bytesAt_eq path sidecar] at found
        obtain ⟨rec, listed, inUse⟩ := nothingLeft path found
        exact stays rec listed path inUse

end Steps

/-- Records in their places, on a working disk with no other files. -/
structure Tidy (ss : StorageServer) : Prop extends RecordsPlaced ss where
  undisturbed : ss.disk.outcomes = []
  nothingLeft : NothingLeft ss

theorem Tidy.ssOperate
    {ss : StorageServer}
    (tidy : Tidy ss)
    (operation : StorageOperation) :
    Tidy (DistributedDocs.ssOperate ss operation) where
  toRecordsPlaced := tidy.toRecordsPlaced.ssOperate operation
  undisturbed := undisturbed_ssOperate tidy.undisturbed operation
  nothingLeft :=
    tidy.nothingLeft.ssOperate tidy.toRecordsPlaced tidy.undisturbed operation

/--
Whatever a storage server with a disk that works is asked to do, every file in
its directory belongs to one of its records.
-/
theorem nothingLeft_run
    (storagePath : {path : CString // path.length ≤ maxTagLength})
    (operations : List StorageOperation) :
    NothingLeft (runFrom ssOperate (newServer storagePath) operations) := by
  have tidy : Tidy (runFrom ssOperate (newServer storagePath) operations) :=
    runFrom_invariant (fun _ operation tidy => tidy.ssOperate operation)
      ⟨recordsPlaced_of_no_files rfl, rfl, fun _ found => by cases found⟩
      operations
  exact tidy.nothingLeft

end DistributedDocs
