import DistributedDocs.GuardedRun
import DistributedDocs.RestorableRecords

namespace DistributedDocs

/-!
# Restarts after any run

What an operation must not do for the storage directory to stay a description
of all records: take a path that is in use, store a name or a checkpoint that
is read back as another one, or make a list too long for its line.
-/

/-- What the event stores is read back as it is. -/
def StoresRestorable (ss : StorageServer) (event : SsEvent) : Prop :=
  match event.command with
  | .createFile msg =>
      ∀ newRecord ∈ createdRecord ss event.now msg,
        RestorableName newRecord.filename
  | .checkpoint _ msg =>
      ∀ target ∈ checkpointTarget ss event.now msg,
        PlainCheckpoint (tagCopy (msg.getD 3 [])) target.2
  | .ssRename oldLogical newLogical =>
      (renamedRecord ss oldLogical newLogical).isSome = true →
        RestorableName newLogical
  | _ => True

instance (ss : StorageServer) :
    ∀ event : SsEvent, Decidable (StoresRestorable ss event)
  | ⟨now, .createFile msg⟩ =>
      inferInstanceAs
        (Decidable
          (∀ newRecord ∈ createdRecord ss now msg,
            RestorableName newRecord.filename))
  | ⟨now, .checkpoint _ msg⟩ =>
      inferInstanceAs
        (Decidable
          (∀ target ∈ checkpointTarget ss now msg,
            PlainCheckpoint (tagCopy (msg.getD 3 [])) target.2))
  | ⟨_, .ssRename oldLogical newLogical⟩ =>
      inferInstanceAs
        (Decidable
          ((renamedRecord ss oldLogical newLogical).isSome = true →
            RestorableName newLogical))
  | ⟨_, .writeLock _ _⟩
  | ⟨_, .writeData _ _⟩
  | ⟨_, .etirw _⟩
  | ⟨_, .disconnected _⟩
  | ⟨_, .undo _ _⟩
  | ⟨_, .revert _ _⟩
  | ⟨_, .deleteFile _⟩
  | ⟨_, .ssCopy _ _⟩ =>
      isTrue trivial

/-- The lists a record has after a grant fit their lines. -/
def GrantFits
    (rec : FileRecord)
    (username permToken : CString) : Prop :=
  let addition :=
    addToLists rec username (asksFor 'r' permToken) (asksFor 'w' permToken)
  addition.done = true →
    FitsLine (str "READ=" ++ csv addition.readUsers) ∧
      FitsLine (str "WRITE=" ++ csv addition.writeUsers)

instance (rec : FileRecord) (username permToken : CString) :
    Decidable (GrantFits rec username permToken) :=
  inferInstanceAs (Decidable (_ → _ ∧ _))

/-- What the request stores is read back as it is. -/
def ListsFit (ss : StorageServer) : StorageRequest → Prop
  | .addAccess (_ :: filename :: username :: permToken :: _) =>
      ∀ rec ∈ ssFindFile ss.files filename, GrantFits rec username permToken
  | _ => True

instance (ss : StorageServer) :
    ∀ request : StorageRequest, Decidable (ListsFit ss request)
  | .addAccess (_ :: filename :: username :: permToken :: _) =>
      inferInstanceAs
        (Decidable
          (∀ rec ∈ ssFindFile ss.files filename,
            GrantFits rec username permToken))
  | .addAccess [] | .addAccess [_] | .addAccess [_, _]
  | .addAccess [_, _, _]
  | .read _ _
  | .stream _ _
  | .viewCheckpoint _ _
  | .listCheckpoints _ _
  | .remAccess _
  | .getStats _
  | .getContent _ =>
      isTrue trivial

/-- The user has a valid name, and the clock fits its type. -/
structure StorageOperation.Admissible (operation : StorageOperation) : Prop where
  users : ∀ user ∈ operation.user, validateUsername user = true
  time : FitsLongLong operation.now

instance (operation : StorageOperation) : Decidable operation.Admissible :=
  decidable_of_iff
    ((∀ user ∈ operation.user, validateUsername user = true) ∧
      (-9223372036854775808 ≤ operation.now ∧
        operation.now ≤ 9223372036854775807))
    ⟨fun ⟨users, time⟩ => ⟨users, time⟩, fun ⟨users, time⟩ => ⟨users, time⟩⟩

/-- The operation keeps the directory a description of all records. -/
def KeepsRestartable (ss : StorageServer) : StorageOperation → Prop
  | .event event => TakesFreePaths ss event ∧ StoresRestorable ss event
  | .request _ request => ListsFit ss request

instance (ss : StorageServer) :
    ∀ operation : StorageOperation, Decidable (KeepsRestartable ss operation)
  | .event event =>
      inferInstanceAs
        (Decidable (TakesFreePaths ss event ∧ StoresRestorable ss event))
  | .request _ request =>
      inferInstanceAs (Decidable (ListsFit ss request))

/-! ## One record stored, all others left alone -/

/-- Where a record's files are depends on its name and its checkpoints. -/
theorem FileRecord.Restorable.samePlaces
    {storagePath : CString}
    {rec changed : FileRecord}
    (restorable : rec.Restorable storagePath)
    (after : changed.Restorable storagePath)
    (filename : changed.filename = rec.filename)
    (checkpoints : changed.checkpoints = rec.checkpoints) :
    changed.filepath = rec.filepath ∧ changed.metapath = rec.metapath ∧
      changed.paths = rec.paths := by
  have filepath : changed.filepath = rec.filepath := by
    rw [after.filepath_eq, restorable.filepath_eq, filename]
  have metapath : changed.metapath = rec.metapath := by
    rw [after.metapath_eq, restorable.metapath_eq, filepath]
  refine ⟨filepath, metapath, ?_⟩
  rw [after.toWellPlaced.paths_eq, restorable.toWellPlaced.paths_eq,
    filename, checkpoints]

/-- A record stays kept while its own files stay as they are. -/
theorem FileRecord.Kept.of_agrees
    {storagePath : CString}
    {before after : Disk CString}
    {rec : FileRecord}
    (kept : rec.Kept storagePath before)
    (agrees : ∀ path ∈ rec.paths, after.bytesAt path = before.bytesAt path) :
    rec.Kept storagePath after where
  toRestorable := kept.toRestorable
  document := kept.document
  contained := by
    rw [agrees rec.filepath (by simp [FileRecord.paths])]
    exact kept.contained
  described := by
    rw [agrees rec.metapath (by simp [FileRecord.paths])]
    exact kept.described
  snapshots := kept.snapshots

namespace Restartable

variable
  {ss after : StorageServer}
  (restartable : Restartable ss)

include restartable

/-- No record changes, and only files that no record has in use. -/
theorem of_same
    (apart : PathsApart after)
    (samePath : after.storagePath = ss.storagePath)
    (undisturbed : after.disk.outcomes = [])
    (files : after.files = ss.files)
    (used :
      ∀ path ∈ pathsInUse ss.files,
        after.disk.bytesAt path = ss.disk.bytesAt path)
    (unused :
      ∀ path, (after.disk.bytesAt path).isSome = true →
        path ∈ pathsInUse ss.files) :
    Restartable after where
  toPathsApart := apart
  undisturbed := undisturbed
  kept := by
    intro rec listed
    rw [files] at listed
    rw [samePath]
    exact (restartable.kept rec listed).of_agrees fun path own =>
      used path (List.mem_flatMap.mpr ⟨rec, listed, own⟩)
  onlyOwn := by
    rw [files]
    exact unused

/-- One record is stored anew, and the files of all others stay. -/
theorem of_stored
    (apart : PathsApart after)
    (samePath : after.storagePath = ss.storagePath)
    (undisturbed : after.disk.outcomes = [])
    {rec changed : FileRecord}
    (present : rec ∈ ss.files)
    (address : changed.address = rec.address)
    (files : after.files = storeRecord changed ss.files)
    (others :
      ∀ q ∈ ss.files, q.address ≠ rec.address →
        ∀ path ∈ q.paths, after.disk.bytesAt path = ss.disk.bytesAt path)
    (kept : changed.Kept ss.storagePath after.disk)
    (own :
      ∀ path, path ∉ changed.paths →
        (after.disk.bytesAt path).isSome = true →
          (ss.disk.bytesAt path).isSome = true ∧ path ∉ rec.paths) :
    Restartable after where
  toPathsApart := apart
  undisturbed := undisturbed
  kept := by
    intro q listed
    rw [files] at listed
    rw [samePath]
    rcases mem_storeRecord listed with ⟨old, other⟩ | rfl
    · exact (restartable.kept q old).of_agrees
        (others q old (address ▸ other))
    · exact kept
  onlyOwn := by
    intro path stored
    rw [files]
    have changedListed : changed ∈ storeRecord changed ss.files :=
      List.mem_map.mpr ⟨rec, present, if_pos address.symm⟩
    by_cases inside : path ∈ changed.paths
    · exact List.mem_flatMap.mpr ⟨changed, changedListed, inside⟩
    · obtain ⟨earlier, notRec⟩ := own path inside stored
      obtain ⟨q, listed, inUse⟩ :=
        List.mem_flatMap.mp (restartable.onlyOwn path earlier)
      have other : q.address ≠ changed.address := by
        intro same
        have isRec :=
          eq_of_address restartable.addresses_nodup listed present
            (same.trans address)
        exact notRec (isRec ▸ inUse)
      exact List.mem_flatMap.mpr
        ⟨q, (mem_storeRecord_of_ne other).mpr listed, inUse⟩

end Restartable

/-- A record stored anew with the paths it had. -/
theorem PathsApart.redescribed
    {ss : StorageServer}
    (apart : PathsApart ss)
    {rec changed : FileRecord}
    (present : rec ∈ ss.files)
    (placed : changed.WellPlaced ss.storagePath)
    (address : changed.address = rec.address)
    (paths : changed.paths = rec.paths)
    (sent : List Message) :
    PathsApart (ss.redescribed changed sent) := by
  -- every record has the paths of one that was there at the same address
  have earlier :
      ∀ r ∈ storeRecord changed ss.files,
        ∃ q ∈ ss.files, q.address = r.address ∧ q.paths = r.paths := by
    intro r listed
    rcases mem_storeRecord listed with ⟨old, _⟩ | rfl
    · exact ⟨r, old, rfl, rfl⟩
    · exact ⟨rec, present, address.symm, paths.symm⟩
  refine ⟨⟨?_, ?_, ?_⟩, ?_, ?_⟩
  · exact (addresses_storeRecord changed ss.files) ▸ apart.addresses_nodup
  · intro r listed
    obtain ⟨q, old, same, _⟩ := earlier r listed
    exact same ▸ apart.addresses_lt q old
  · intro r listed
    rcases mem_storeRecord listed with ⟨old, _⟩ | rfl
    · exact apart.wellPlaced r old
    · exact placed
  · intro r listed
    obtain ⟨q, old, _, same⟩ := earlier r listed
    exact same ▸ apart.paths_nodup q old
  · intro r rListed t tListed different
    obtain ⟨q, qOld, qAddress, qPaths⟩ := earlier r rListed
    obtain ⟨u, uOld, uAddress, uPaths⟩ := earlier t tListed
    rw [← qPaths, ← uPaths]
    apply apart.paths_disjoint q qOld u uOld
    rwa [qAddress, uAddress]

/-- A record described anew under its name and with its checkpoints. -/
theorem Restartable.redescribed
    {ss : StorageServer}
    (restartable : Restartable ss)
    {rec changed : FileRecord}
    (present : rec ∈ ss.files)
    (restorable : changed.Restorable ss.storagePath)
    (address : changed.address = rec.address)
    (filename : changed.filename = rec.filename)
    (checkpoints : changed.checkpoints = rec.checkpoints)
    (sent : List Message) :
    Restartable (ss.redescribed changed sent) := by
  have kept := restartable.kept rec present
  obtain ⟨filepath, _, paths⟩ :=
    kept.toRestorable.samePlaces restorable filename checkpoints
  have metaOwn : changed.metapath ∈ changed.paths := by
    simp [FileRecord.paths]
  have apart :=
    restartable.toPathsApart.redescribed present restorable.toWellPlaced
      address paths sent
  refine
    @of_stored ss _ restartable apart rfl
      ((Disk.outcomes_set _ _ _).trans restartable.undisturbed) rec changed
      present address rfl ?_ ?_ ?_
  · intro q listed different path own
    apply Disk.bytesAt_set_of_ne
    rintro rfl
    exact restartable.paths_disjoint q listed rec present different own
      (paths ▸ metaOwn)
  · exact
      { toRestorable := restorable
        document := by
          rw [filename]
          exact kept.document
        contained := by
          have different := restorable.toWellPlaced.metapath_ne
          rw [StorageServer.redescribed,
            Disk.bytesAt_set_of_ne different, filepath]
          exact kept.contained
        described := Disk.bytesAt_set_same _ _ _
        snapshots := by
          rw [checkpoints]
          exact kept.snapshots }
  · intro path outside stored
    have notMeta : path ≠ changed.metapath := by
      rintro rfl
      exact outside metaOwn
    rw [StorageServer.redescribed, Disk.bytesAt_set_of_ne notMeta] at stored
    exact ⟨stored, paths ▸ outside⟩

/-! ## Events -/

section Events

variable
  {ss : StorageServer}
  {event : SsEvent}
  (restartable : Restartable ss)
  (free : TakesFreePaths ss event)

theorem OthersUntouched.bytesAt_eq
    (untouched : OthersUntouched ss event)
    {rec : FileRecord}
    (subject : event.subject ss = some rec) :
    ∀ q ∈ ss.files, q.address ≠ rec.address → ∀ path ∈ q.paths,
      (ssStep ss event).disk.bytesAt path = ss.disk.bytesAt path := by
  intro q listed different path own
  refine (untouched q listed ?_).bytesAt_eq path own
  rw [subject]
  rintro same
  exact different (congrArg FileRecord.address (Option.some.inj same).symm)

include restartable free

omit free in
theorem Restartable.disk_undisturbed :
    (ssStep ss event).disk.outcomes = [] :=
  (stepEffect ss event).disk_agrees.undisturbed restartable.undisturbed

/-- An event that leaves all records as they are. -/
theorem Restartable.event_same
    {disk : Disk CString}
    {statistics : List (List CString)}
    (ends : EndsWith ss (ssStep ss event) ss.files disk statistics)
    (used :
      ∀ path ∈ pathsInUse ss.files,
        disk.bytesAt path = ss.disk.bytesAt path)
    (fewer :
      ∀ path, (disk.bytesAt path).isSome = true →
        (ss.disk.bytesAt path).isSome = true) :
    Restartable (ssStep ss event) := by
  refine
    restartable.of_same (ssStep_apart restartable.toPathsApart free).1
      (stepEffect ss event).storagePath_eq
      restartable.disk_undisturbed ends.files_eq ?_ ?_
  · rw [ends.disk_eq]
    exact used
  · rw [ends.disk_eq]
    exact fun path stored => restartable.onlyOwn path (fewer path stored)

/-- An event that stores its subject anew. -/
theorem Restartable.event_stored
    {rec changed : FileRecord}
    {disk : Disk CString}
    {statistics : List (List CString)}
    (subject : event.subject ss = some rec)
    (ends :
      EndsWith ss (ssStep ss event) (storeRecord changed ss.files) disk
        statistics)
    (address : changed.address = rec.address)
    (kept : changed.Kept ss.storagePath disk)
    (own :
      ∀ path, path ∉ changed.paths →
        (disk.bytesAt path).isSome = true →
          (ss.disk.bytesAt path).isSome = true ∧ path ∉ rec.paths) :
    Restartable (ssStep ss event) := by
  obtain ⟨apart, untouched⟩ := ssStep_apart restartable.toPathsApart free
  refine
    restartable.of_stored apart (stepEffect ss event).storagePath_eq
      restartable.disk_undisturbed (mem_of_subject subject) address
      ends.files_eq (untouched.bytesAt_eq subject) ?_ ?_
  · rw [ends.disk_eq]
    exact kept
  · rw [ends.disk_eq]
    exact own

/-- An event that replaces the content of its subject, under its name. -/
theorem Restartable.event_rewritten
    {rec changed : FileRecord}
    {earlier : Disk CString}
    {content : RawBytes}
    {statistics : List (List CString)}
    (subject : event.subject ss = some rec)
    (ends :
      EndsWith ss (ssStep ss event) (storeRecord changed ss.files)
        ((earlier.set rec.filepath (some content)).set rec.metapath
          (some (rawBytes (metadataText changed))))
        statistics)
    (restorable : changed.Restorable ss.storagePath)
    (address : changed.address = rec.address)
    (filename : changed.filename = rec.filename)
    (checkpoints : changed.checkpoints = rec.checkpoints)
    (fewer :
      ∀ path, path ∉ rec.paths → (earlier.bytesAt path).isSome = true →
        (ss.disk.bytesAt path).isSome = true) :
    Restartable (ssStep ss event) := by
  have present := mem_of_subject subject
  have kept := restartable.kept rec present
  obtain ⟨filepath, metapath, paths⟩ :=
    kept.toRestorable.samePlaces restorable filename checkpoints
  refine
    restartable.event_stored free subject ends address
      { toRestorable := restorable
        document := by
          rw [filename]
          exact kept.document
        contained := by
          rw [filepath,
            Disk.bytesAt_set_of_ne kept.toWellPlaced.metapath_ne,
            Disk.bytesAt_set_same]
          rfl
        described := by
          rw [metapath, Disk.bytesAt_set_same]
        snapshots := by
          rw [checkpoints]
          exact kept.snapshots }
      ?_
  intro path outside stored
  rw [paths] at outside
  have notOwn := outside
  simp only [FileRecord.paths, List.cons_append, List.nil_append,
    List.mem_cons, not_or] at notOwn
  rw [Disk.bytesAt_set_of_ne notOwn.2.1, Disk.bytesAt_set_of_ne notOwn.1]
    at stored
  exact ⟨fewer path outside stored, outside⟩

end Events

/-- What is stored for a record that is there already. -/
theorem UsersKnown.of_stored_at
    {files : List FileRecord}
    {after : StorageServer}
    {rec changed : FileRecord}
    (known : UsersKnown after)
    (stored : after.files = storeRecord changed files)
    (present : rec ∈ files)
    (address : changed.address = rec.address) :
    validateUsername changed.lastAccessUser = true := by
  apply known.lastAccess
  rw [stored]
  exact List.mem_map.mpr ⟨rec, present, if_pos address.symm⟩

section Rewriting

variable
  {ss : StorageServer}
  {event : SsEvent}
  (restartable : Restartable ss)
  (free : TakesFreePaths ss event)
  (known : UsersKnown (ssStep ss event))
  (time : FitsLongLong event.now)
  {rec : FileRecord}
  (subject : event.subject ss = some rec)
  {username : CString}
  {content : RawBytes}
  {statistics : List (List CString)}

include restartable free known time subject

/-- A commit or a revert. -/
theorem Restartable.event_diskAfter
    {snapshot : RawBytes}
    (ends :
      EndsWith ss (ssStep ss event)
        (storeRecord (rec.rewritten event.now username 1) ss.files)
        (rec.diskAfter ss.disk snapshot content
          (metadataText (rec.rewritten event.now username 1)))
        statistics) :
    Restartable (ssStep ss event) := by
  have present := mem_of_subject subject
  have user := known.of_stored_at ends.files_eq present rfl
  refine
    restartable.event_rewritten free subject ends
      ((restartable.kept rec present).rewritten time user
        ⟨by decide, by decide⟩)
      rfl rfl rfl ?_
  intro path outside stored
  have notUndo : path ≠ rec.undopath := by
    rintro rfl
    exact outside (by simp [FileRecord.paths])
  rwa [Disk.bytesAt_set_of_ne notUndo] at stored

theorem Restartable.event_undone
    (ends :
      EndsWith ss (ssStep ss event)
        (storeRecord (rec.rewritten event.now username 0) ss.files)
        ((ss.disk.set rec.filepath (some content)).set rec.metapath
          (some (rawBytes
            (metadataText (rec.rewritten event.now username 0)))))
        statistics) :
    Restartable (ssStep ss event) := by
  have present := mem_of_subject subject
  have user := known.of_stored_at ends.files_eq present rfl
  exact
    restartable.event_rewritten free subject ends
      ((restartable.kept rec present).rewritten time user
        ⟨by decide, by decide⟩)
      rfl rfl rfl fun path _ stored => stored

theorem Restartable.event_copied
    {tempPath : CString}
    (ends :
      EndsWith ss (ssStep ss event)
        (storeRecord (rec.touched event.now (some username) true) ss.files)
        (((ss.disk.set tempPath none).set rec.filepath
          (some content)).set rec.metapath
            (some (rawBytes
              (metadataText (rec.touched event.now (some username) true)))))
        statistics) :
    Restartable (ssStep ss event) := by
  have present := mem_of_subject subject
  have user := known.of_stored_at ends.files_eq present rfl
  refine
    restartable.event_rewritten free subject ends
      ((restartable.kept rec present).touched time user) rfl rfl rfl ?_
  intro path _ stored
  by_cases scratch : path = tempPath
  · subst scratch
    rw [Disk.bytesAt_set_same] at stored
    cases stored
  · rwa [Disk.bytesAt_set_of_ne scratch] at stored

end Rewriting

/-- A file that no record has in use is removed. -/
theorem Restartable.event_cleared
    {ss : StorageServer}
    {event : SsEvent}
    (restartable : Restartable ss)
    (free : TakesFreePaths ss event)
    {path : CString}
    {statistics : List (List CString)}
    (ends :
      EndsWith ss (ssStep ss event) ss.files (ss.disk.set path none)
        statistics)
    (unused : path ∉ pathsInUse ss.files) :
    Restartable (ssStep ss event) := by
  refine restartable.event_same free ends ?_ ?_
  · intro other inUse
    apply Disk.bytesAt_set_of_ne
    rintro rfl
    exact unused inUse
  · intro other stored
    by_cases same : other = path
    · subst same
      rw [Disk.bytesAt_set_same] at stored
      cases stored
    · rwa [Disk.bytesAt_set_of_ne same] at stored

/-- A checkpoint stays in the list, or its snapshot is given up. -/
theorem FileRecord.kept_or_evicted
    {rec : FileRecord}
    {ckpt : CheckpointRecord}
    (listed : ckpt ∈ rec.checkpoints) :
    ckpt ∈ rec.keptCheckpoints ∨ ckpt.filepath ∈ rec.evictedPaths := by
  unfold FileRecord.keptCheckpoints FileRecord.evictedPaths
  by_cases full : ssMaxCheckpoints ≤ rec.checkpoints.length
  · rw [if_pos full, if_pos full]
    cases all : rec.checkpoints with
    | nil =>
        rw [all] at listed
        cases listed
    | cons oldest others =>
        rw [all] at listed
        rcases List.mem_cons.mp listed with rfl | later
        · exact Or.inr (by simp)
        · exact Or.inl later
  · rw [if_neg full]
    exact Or.inl listed

theorem Restartable.event_checkpointed
    {ss : StorageServer}
    {event : SsEvent}
    (restartable : Restartable ss)
    (free : TakesFreePaths ss event)
    (known : UsersKnown (ssStep ss event))
    (time : FitsLongLong event.now)
    {rec : FileRecord}
    (subject : event.subject ss = some rec)
    {username tag ckptPath : CString}
    {content : RawBytes}
    {statistics : List (List CString)}
    (ends :
      EndsWith ss (ssStep ss event)
        (storeRecord (rec.checkpointed event.now username tag ckptPath)
          ss.files)
        (rec.diskAfterCheckpoint ss.disk content ckptPath
          (metadataText (rec.checkpointed event.now username tag ckptPath)))
        statistics)
    (unused : ckptPath ∉ pathsInUse ss.files)
    (restorable : CheckpointRecord.Restorable ⟨tag, ckptPath⟩)
    (marked :
      ∃ base,
        ckptPath = ss.storagePath ++ str "/" ++ base ∧
          str ".ckpt_" <:+: base) :
    Restartable (ssStep ss event) := by
  have present := mem_of_subject subject
  have kept := restartable.kept rec present
  have user := known.of_stored_at ends.files_eq present rfl
  have contentOwn : rec.filepath ∈ rec.paths := by simp [FileRecord.paths]
  have notSnapshot : rec.filepath ≠ ckptPath := by
    rintro rfl
    exact unused (List.mem_flatMap.mpr ⟨rec, present, contentOwn⟩)
  have notEvicted : rec.filepath ∉ rec.evictedPaths := by
    have nodup := restartable.paths_nodup rec present
    simp only [FileRecord.paths, List.cons_append, List.nil_append,
      List.nodup_cons, List.mem_cons, not_or] at nodup
    exact fun evicted =>
      nodup.1.2.2 (rec.evictedPaths_sublist.subset evicted)
  have paths :
      (rec.checkpointed event.now username tag ckptPath).paths =
        [rec.filepath, rec.metapath, rec.undopath] ++
          (rec.keptCheckpoints.map CheckpointRecord.filepath ++
            [ckptPath]) := by
    simp [FileRecord.paths, FileRecord.checkpointed, FileRecord.touched]
  refine
    restartable.event_stored free subject ends rfl
      { toRestorable := kept.checkpointed time user restorable
        document := kept.document
        contained := ?_
        described := Disk.bytesAt_set_same _ _ _
        snapshots := ?_ }
      ?_
  · change (Disk.bytesAt _ rec.filepath).isSome = true
    rw [FileRecord.diskAfterCheckpoint,
      Disk.bytesAt_set_of_ne kept.toWellPlaced.metapath_ne,
      Disk.bytesAt_clear, if_neg notEvicted,
      Disk.bytesAt_set_of_ne notSnapshot]
    exact kept.contained
  · intro ckpt listed
    rcases List.mem_append.mp listed with old | new
    · exact kept.snapshots ckpt (rec.keptCheckpoints_sublist.subset old)
    · rw [List.mem_singleton.mp new]
      exact marked
  · intro path outside stored
    rw [paths] at outside
    simp only [List.cons_append, List.nil_append, List.mem_cons,
      List.mem_append, List.mem_map, List.not_mem_nil, or_false, not_or]
      at outside
    obtain ⟨notContent, notMeta, notUndo, notKept, notNew⟩ := outside
    rw [FileRecord.diskAfterCheckpoint, Disk.bytesAt_set_of_ne notMeta,
      Disk.bytesAt_clear] at stored
    split at stored
    · cases stored
    · next stays =>
      rw [Disk.bytesAt_set_of_ne notNew] at stored
      refine ⟨stored, ?_⟩
      simp only [FileRecord.paths, List.cons_append, List.nil_append,
        List.mem_cons, List.mem_map, not_or]
      refine ⟨notContent, notMeta, notUndo, ?_⟩
      rintro ⟨ckpt, listed, rfl⟩
      rcases FileRecord.kept_or_evicted listed with inList | evicted
      · exact notKept ⟨ckpt, inList, rfl⟩
      · exact stays evicted

theorem Restartable.event_renamed
    {ss : StorageServer}
    {event : SsEvent}
    (restartable : Restartable ss)
    (free : TakesFreePaths ss event)
    (time : FitsLongLong event.now)
    {rec : FileRecord}
    (subject : event.subject ss = some rec)
    {newLogical : CString}
    (valid : validateFilename newLogical = true)
    (name : RestorableName newLogical)
    {bytes : RawBytes}
    (stored : ss.disk.bytesAt rec.filepath = some bytes)
    {statistics : List (List CString)}
    (ends :
      EndsWith ss (ssStep ss event)
        (storeRecord (rec.movedTo ss.storagePath newLogical event.now)
          ss.files)
        (movedDisk ss.disk rec.filepath
          (contentPath ss.storagePath newLogical) rec.metapath
          (contentPath ss.storagePath newLogical ++ ssMetaSuffix)
          rec.undopath
          (contentPath ss.storagePath newLogical ++ ssUndoSuffix)
          (rawBytes
            (metadataText
              (rec.movedTo ss.storagePath newLogical event.now))))
        statistics) :
    Restartable (ssStep ss event) := by
  have kept := restartable.kept rec (mem_of_subject subject)
  have short := ss.storagePath.property
  have moved := kept.toRestorable.movedTo short time valid name
  have nameShort := length_of_validateFilename valid
  generalize changedEq :
    rec.movedTo ss.storagePath newLogical event.now = changed
      at ends moved
  have filename : changed.filename = newLogical := by
    rw [← changedEq]
    exact safeStrcpy_of_short nameShort
  have filepath : changed.filepath = contentPath ss.storagePath newLogical := by
    rw [moved.filepath_eq, filename]
  have checkpoints : changed.checkpoints = rec.checkpoints := by
    rw [← changedEq]
    rfl
  have address : changed.address = rec.address := by
    rw [← changedEq]
    rfl
  have ownPaths :
      changed.paths =
        namedPaths ss.storagePath newLogical ++
          rec.checkpoints.map CheckpointRecord.filepath := by
    rw [moved.toWellPlaced.paths_eq, filename, checkpoints]
  -- the new content is at no path of a sidecar
  have nonempty : physicalNameOf rec.filename ≠ [] := by
    have document := kept.document
    simp only [isDocumentName, Bool.and_eq_true, decide_eq_true_eq]
      at document
    exact document.1.1.1.2
  have notSidecar :
      ∀ suffix, suffix = ssMetaSuffix ∨ suffix = ssUndoSuffix →
        contentPath ss.storagePath newLogical ≠ rec.filepath ++ suffix := by
    intro suffix taken same
    rw [kept.filepath_eq, contentPath, contentPath,
      List.append_assoc _ (physicalNameOf rec.filename),
      List.append_right_inj] at same
    exact name.physicalNameOf_ne nonempty taken same
  have clear :
      contentPath ss.storagePath newLogical ∉
        [rec.metapath, contentPath ss.storagePath newLogical ++ ssMetaSuffix,
          rec.undopath,
          contentPath ss.storagePath newLogical ++ ssUndoSuffix] := by
    have metaNonempty : ssMetaSuffix ≠ [] := by decide
    have undoNonempty : ssUndoSuffix ≠ [] := by decide
    rw [kept.metapath_eq, kept.undopath_eq]
    simp [notSidecar, metaNonempty, undoNonempty]
  have oldApart : [rec.filepath, rec.metapath, rec.undopath].Nodup := by
    have nodup := restartable.paths_nodup rec (mem_of_subject subject)
    exact (List.nodup_append.mp nodup).1
  refine
    restartable.event_stored free subject ends address
      { toRestorable := moved
        document := by
          rw [filename]
          exact name.document
        contained := by
          rw [filepath,
            bytesAt_movedDisk_content restartable.undisturbed stored clear]
          rfl
        described := by
          rw [moved.metapath_eq, filepath]
          exact bytesAt_movedDisk_description restartable.undisturbed _
        snapshots := by
          rw [checkpoints]
          exact kept.snapshots }
      ?_
  intro path outside present
  rw [ownPaths, List.mem_append, not_or] at outside
  obtain ⟨notNew, notSnapshot⟩ := outside
  by_cases old : path ∈ [rec.filepath, rec.metapath, rec.undopath]
  · rw [bytesAt_movedDisk_gone restartable.undisturbed oldApart old notNew]
      at present
    cases present
  · have untouched :
        path ∉
          [rec.filepath, contentPath ss.storagePath newLogical, rec.metapath,
            contentPath ss.storagePath newLogical ++ ssMetaSuffix,
            rec.undopath,
            contentPath ss.storagePath newLogical ++ ssUndoSuffix] := by
      simp only [namedPaths, List.mem_cons, List.not_mem_nil, or_false,
        not_or] at notNew old ⊢
      exact ⟨old.1, notNew.1, old.2.1, notNew.2.1, old.2.2, notNew.2.2⟩
    rw [(agreesOutside_movedDisk _).bytesAt_eq path untouched] at present
    refine ⟨present, ?_⟩
    rw [FileRecord.paths, List.mem_append, not_or]
    exact ⟨old, notSnapshot⟩

theorem Restartable.event_created
    {ss : StorageServer}
    {now : Int}
    {msg : List CString}
    (restartable : Restartable ss)
    (free : TakesFreePaths ss ⟨now, .createFile msg⟩)
    (time : FitsLongLong now)
    {newRecord : FileRecord}
    (created : createdRecord ss now msg = some newRecord)
    (name : RestorableName newRecord.filename)
    {statistics : List (List CString)}
    (ends :
      EndsWith ss (ssStep ss ⟨now, .createFile msg⟩) (newRecord :: ss.files)
        ((ss.disk.set newRecord.filepath (some [])).set newRecord.metapath
          (some (rawBytes (metadataText newRecord))))
        statistics) :
    Restartable (ssStep ss ⟨now, .createFile msg⟩) := by
  obtain ⟨apart, untouched⟩ := ssStep_apart restartable.toPathsApart free
  have placed := (createdRecord_spec created).2.1
  have metaApart := placed.metapath_ne
  have kept :
      newRecord.Kept ss.storagePath
        (ssStep ss ⟨now, .createFile msg⟩).disk := by
    obtain ⟨filename, owner, validName, validOwner, rfl⟩ :=
      createdRecord_eq created
    have named : (newFileRecord ss now filename owner).filename = filename :=
      safeStrcpy_of_short (length_of_validateFilename validName)
    rw [ends.disk_eq]
    exact
      { toRestorable :=
          restorable_newFileRecord ss time validName validOwner
            (named ▸ name)
        document := name.document
        contained := by
          rw [Disk.bytesAt_set_of_ne metaApart, Disk.bytesAt_set_same]
          rfl
        described := Disk.bytesAt_set_same _ _ _
        snapshots := by
          intro ckpt listed
          cases listed }
  refine
    { toPathsApart := apart
      undisturbed := restartable.disk_undisturbed
      kept := ?_
      onlyOwn := ?_ }
  · intro rec listed
    rw [(stepEffect ss _).storagePath_eq]
    rw [ends.files_eq] at listed
    rcases List.mem_cons.mp listed with rfl | old
    · exact kept
    · refine (restartable.kept rec old).of_agrees ?_
      refine (untouched rec old ?_).bytesAt_eq
      intro subject
      cases subject
  · intro path stored
    rw [ends.files_eq, pathsInUse, List.flatMap_cons, List.mem_append]
    by_cases own : path ∈ newRecord.paths
    · exact Or.inl own
    · right
      simp only [FileRecord.paths, List.cons_append, List.nil_append,
        List.mem_cons, not_or] at own
      rw [ends.disk_eq, Disk.bytesAt_set_of_ne own.2.1,
        Disk.bytesAt_set_of_ne own.1] at stored
      exact restartable.onlyOwn path stored

theorem Restartable.event_deleted
    {ss : StorageServer}
    {now : Int}
    {msg : List CString}
    (restartable : Restartable ss)
    (free : TakesFreePaths ss ⟨now, .deleteFile msg⟩)
    {node : FileRecord}
    (deleted : deletedRecord ss msg = some node)
    {statistics : List (List CString)}
    (ends :
      EndsWith ss (ssStep ss ⟨now, .deleteFile msg⟩)
        (ss.files.eraseP fun r => r.address = node.address)
        (ss.disk.clear node.paths) statistics) :
    Restartable (ssStep ss ⟨now, .deleteFile msg⟩) := by
  obtain ⟨apart, untouched⟩ := ssStep_apart restartable.toPathsApart free
  obtain ⟨nodePresent, subject⟩ := deletedRecord_subject deleted now
  refine
    { toPathsApart := apart
      undisturbed := restartable.disk_undisturbed
      kept := ?_
      onlyOwn := ?_ }
  · intro rec listed
    rw [(stepEffect ss _).storagePath_eq]
    rw [ends.files_eq] at listed
    have old := List.mem_of_mem_eraseP listed
    have different :=
      address_ne_of_mem_eraseP restartable.addresses_nodup nodePresent listed
    exact (restartable.kept rec old).of_agrees
      (untouched.bytesAt_eq subject rec old different)
  · intro path stored
    rw [ends.disk_eq, Disk.bytesAt_clear] at stored
    split at stored
    · cases stored
    · next stays =>
      obtain ⟨q, listed, inUse⟩ :=
        List.mem_flatMap.mp (restartable.onlyOwn path stored)
      rw [ends.files_eq]
      refine List.mem_flatMap.mpr ⟨q, ?_, inUse⟩
      refine (List.mem_eraseP_of_neg ?_).mpr listed
      intro sameAddress
      have isNode :=
        eq_of_address restartable.addresses_nodup listed nodePresent
          (by simpa using sameAddress)
      exact stays (isNode ▸ inUse)

theorem Restartable.with_sent
    {ss : StorageServer}
    (restartable : Restartable ss)
    (sent : List Message) :
    Restartable { ss with sent := sent } where
  addresses_nodup := restartable.addresses_nodup
  addresses_lt := restartable.addresses_lt
  wellPlaced := restartable.wellPlaced
  paths_nodup := restartable.paths_nodup
  paths_disjoint := restartable.paths_disjoint
  undisturbed := restartable.undisturbed
  kept := restartable.kept
  onlyOwn := restartable.onlyOwn

/-- A request leaves a server that restarts as it is. -/
theorem Restartable.request
    {ss : StorageServer}
    (restartable : Restartable ss)
    {now : Int}
    {request : StorageRequest}
    (admissible : (StorageOperation.request now request).Admissible)
    (fits : ListsFit ss request) :
    Restartable (ssOperate ss (.request now request)) := by
  have short : ∀ user ∈ request.user, user.length < maxUsernameLength :=
    fun user asked =>
      (validateUsername_iff.mp (admissible.users user asked)).2.1
  cases storageOutcome restartable.toRecordsPlaced restartable.undisturbed now
      request short with
  | same sent ends =>
      rw [ends]
      exact restartable.with_sent sent
  | @touched rec username asked present sent ends =>
      have time : FitsLongLong now := admissible.time
      have user :
          validateUsername
            (rec.touched now (some username) false).lastAccessUser = true :=
        KeepsUsersKnown.valid_copy (admissible.users username asked)
      rw [ends]
      exact restartable.redescribed present
        ((restartable.kept rec present).touched time user) rfl rfl rfl sent
  | @granted type filename username permToken rest rec addition isGrant found
      added done sent ends =>
      subst isGrant
      have present := (ssFindFile_filename found).1
      have kept := restartable.kept _ present
      have valid := admissible.users username rfl
      have sound :=
        addToLists_sound rec (short username rfl) (asksFor 'r' permToken)
          (asksFor 'w' permToken)
      have lines := fits rec found
      simp only [GrantFits, added] at lines sound
      obtain ⟨readLine, writeLine⟩ := lines done
      have readers : RestorableUsers (str "READ=") addition.readUsers := by
        cases read : addition.addedRead with
        | false =>
            exact (sound.read_kept read).symm ▸ kept.readers
        | true =>
            obtain ⟨_, room, users⟩ := sound.read_added read
            rw [users] at readLine ⊢
            exact kept.readers.added valid room readLine
      have writers : RestorableUsers (str "WRITE=") addition.writeUsers := by
        cases written : addition.addedWrite with
        | false =>
            exact (sound.write_kept written).symm ▸ kept.writers
        | true =>
            obtain ⟨_, room, users⟩ := sound.write_added written
            rw [users] at writeLine ⊢
            exact kept.writers.added valid room writeLine
      rw [ends]
      exact restartable.redescribed present
        (kept.toRestorable.withLists readers writers) rfl rfl rfl sent
  | revoked asked present sent ends =>
      have kept := restartable.kept _ present
      rw [ends]
      exact restartable.redescribed present
        (kept.toRestorable.withLists (kept.readers.removed _)
          (kept.writers.removed _))
        rfl rfl rfl sent

/-! ## Every operation -/

/-- What the server takes that is free, and stores as it is read back. -/
theorem Restartable.event
    {ss : StorageServer}
    (restartable : Restartable ss)
    {event : SsEvent}
    (known : UsersKnown (ssStep ss event))
    (time : FitsLongLong event.now)
    (free : TakesFreePaths ss event)
    (stores : StoresRestorable ss event) :
    Restartable (ssStep ss event) := by
  have unused :
      ∀ path ∈ takenPaths ss event, freedPaths ss event = [] →
        path ∉ pathsInUse ss.files := by
    intro path taken nothingFreed inUse
    have freed := free path taken inUse
    rw [nothingFreed] at freed
    cases freed
  cases stepOutcome restartable.toRecordsPlaced restartable.undisturbed
      event with
  | idle noSubject ends =>
      exact restartable.event_same free ends (fun _ _ => rfl) fun _ => id
  | committed isEtirw accepted subject present ends =>
      exact restartable.event_diskAfter free known time subject ends
  | reverted isRevert accepted subject present ends =>
      exact restartable.event_diskAfter free known time subject ends
  | undone isUndo accepted subject available kept ends =>
      exact restartable.event_undone free known time subject ends
  | @notCheckpointed fd msg rec ckptPath isCheckpoint refused target ends =>
      obtain ⟨now, command⟩ := event
      obtain rfl : command = .checkpoint fd msg := isCheckpoint
      have taken : ckptPath ∈ takenPaths ss ⟨now, .checkpoint fd msg⟩ := by
        simp only [takenPaths, target, List.mem_singleton]
      exact restartable.event_cleared free ends (unused _ taken rfl)
  | @checkpointed fd type username filename tag rest rec ckptPath bytes
      isCheckpoint accepted target present ends =>
      obtain ⟨now, command⟩ := event
      obtain rfl :
          command =
            .checkpoint fd (type :: username :: filename :: tag :: rest) :=
        isCheckpoint
      have taken :
          ckptPath ∈
            takenPaths ss
              ⟨now, .checkpoint fd
                (type :: username :: filename :: tag :: rest)⟩ := by
        simp only [takenPaths, target, List.mem_singleton]
      obtain ⟨_, subject, built⟩ := checkpointTarget_found target
      have plain : PlainCheckpoint (tagCopy tag) ckptPath :=
        stores (rec, ckptPath) target
      have marked :
          ∃ base,
            ckptPath = ss.storagePath ++ str "/" ++ base ∧
              str ".ckpt_" <:+: base := by
        obtain ⟨label, path⟩ := built
        obtain ⟨base, same, _, mark⟩ := snapshot_of_checkpointPath path
        exact ⟨base, same, mark⟩
      exact restartable.event_checkpointed free known time subject ends
        (unused _ taken rfl)
        (plain.restorable ss.storagePath.property built) marked
  | @renamed oldLogical newLogical rec bytes isRename accepted target present
      ends =>
      obtain ⟨now, command⟩ := event
      obtain rfl : command = .ssRename oldLogical newLogical := isRename
      have name : RestorableName newLogical :=
        stores (Option.isSome_iff_exists.mpr ⟨rec, target⟩)
      simp only [renamedRecord, Option.ite_none_right_eq_some,
        Bool.and_eq_true] at target
      exact restartable.event_renamed free time target.2 target.1.2 name
        present ends
  | @notCopied peer msg srcRec destRec isCopy refused target ends =>
      obtain ⟨now, command⟩ := event
      obtain rfl : command = .ssCopy peer msg := isCopy
      have taken :
          copyTempPath destRec ∈ takenPaths ss ⟨now, .ssCopy peer msg⟩ := by
        simp only [takenPaths, target, List.mem_singleton]
      exact restartable.event_cleared free ends (unused _ taken rfl)
  | @copied peer msg srcRec destRec username bytes isCopy accepted target
      ends =>
      obtain ⟨now, command⟩ := event
      obtain rfl : command = .ssCopy peer msg := isCopy
      have subject :
          SsEvent.subject ss ⟨now, .ssCopy peer msg⟩ = some destRec :=
        (copyTarget_found target).2
      exact restartable.event_copied free known time subject ends
  | @created msg newRecord isCreate accepted created ends =>
      obtain ⟨now, command⟩ := event
      obtain rfl : command = .createFile msg := isCreate
      exact restartable.event_created free time created
        (stores newRecord created) ends
  | @deleted msg node isDelete accepted deleted ends =>
      obtain ⟨now, command⟩ := event
      obtain rfl : command = .deleteFile msg := isDelete
      exact restartable.event_deleted free deleted ends

/-- A server that restarts as it is, and knows all users it has noted. -/
structure Sustained (ss : StorageServer) : Prop extends Restartable ss where
  users : UsersKnown ss

theorem sustained_newServer
    (storagePath : {path : CString // path.length ≤ maxTagLength}) :
    Sustained (newServer storagePath) := by
  constructor
  · constructor
    · constructor
      · exact recordsPlaced_of_no_files rfl
      all_goals simp [newServer]
    all_goals simp [newServer]
  · constructor <;> simp [newServer]

/-- An operation that keeps the directory a description, keeps it so. -/
theorem Sustained.ssOperate
    {ss : StorageServer}
    (sustained : Sustained ss)
    {operation : StorageOperation}
    (admissible : operation.Admissible)
    (keeps : KeepsRestartable ss operation) :
    Sustained (DistributedDocs.ssOperate ss operation) := by
  have users :=
    sustained.users.ssOperate sustained.toRecordsPlaced
      sustained.undisturbed admissible.users
  refine ⟨?_, users⟩
  cases operation with
  | event event =>
      exact sustained.event users admissible.time keeps.1 keeps.2
  | request now request =>
      exact sustained.request admissible keeps

/--
In every run whose operations take free paths only and store what is read back
as it is, a restart finds the same records in every state.
-/
theorem survivesRestart_of_keepsRestartable
    (storagePath : {path : CString // path.length ≤ maxTagLength})
    {operations : List StorageOperation}
    (admissible : ∀ operation ∈ operations, operation.Admissible)
    (keeps :
      GuardedRun ssOperate KeepsRestartable (newServer storagePath)
        operations) :
    SurvivesRestart
      (runFrom ssOperate (newServer storagePath) operations) := by
  have guarded := keeps.and (GuardedRun.of_forall_mem admissible)
  have sustained :
      Sustained (runFrom ssOperate (newServer storagePath) operations) :=
    guarded.invariant
      (fun _ _ invariant allowed => invariant.ssOperate allowed.2 allowed.1)
      (sustained_newServer storagePath)
  exact sustained.survivesRestart

/-- A shared document that is written, checkpointed, read and moved. -/
def sharedAndMoved : List StorageOperation :=
  [ .event ⟨1, .createFile [str "CREATE_FILE", str "a", str "ada"]⟩,
    .request 2 (.addAccess [str "SS_ADDACCESS", str "a", str "bob", str "RW"]),
    .event ⟨3, .writeLock 4 [str "REQ_WRITE_LOCK", str "bob", str "a",
      str "0"]⟩,
    .event ⟨4, .writeData 4 [str "WRITE_DATA", str "0", str "Hello."]⟩,
    .event ⟨5, .etirw 4⟩,
    .event ⟨6, .checkpoint 4 [str "REQ_CHECKPOINT", str "bob", str "a",
      str "first draft"]⟩,
    .request 7 (.read 5 [str "REQ_READ", str "ada", str "a"]),
    .event ⟨8, .ssRename (str "a") (str "docs/a")⟩ ]

theorem survivesRestart_sharedAndMoved :
    SurvivesRestart
      (runFrom ssOperate (newServer ⟨str "s", length_shortPath⟩)
        sharedAndMoved) :=
  survivesRestart_of_keepsRestartable _ (by decide +kernel)
    (by decide +kernel)

/-- A document with the name of a sidecar. -/
def metaNamed : SsEvent :=
  ⟨1, .createFile [str "CREATE_FILE", str "notes.meta", str "ada"]⟩

/-- It is taken for a sidecar, and nothing is loaded. -/
theorem not_survivesRestart_metaNamed :
    ¬∀ (storagePath : {path : CString // path.length ≤ maxTagLength})
        (operations : List StorageOperation),
      (∀ operation ∈ operations, operation.Admissible) →
        SurvivesRestart
          (runFrom ssOperate (newServer storagePath) operations) := by
  intro always
  let start := newServer ⟨str "s", length_shortPath⟩
  let entries : List DirEntry :=
    [⟨str "notes.meta", false⟩, ⟨str "notes.meta.meta", false⟩]
  have survives : SurvivesRestart (ssStep start metaNamed) :=
    always ⟨str "s", length_shortPath⟩ [.event metaNamed] (by decide +kernel)
  have written :
      writtenPaths start metaNamed =
        [str "s/notes.meta", str "s/notes.meta.meta"] := by
    decide +kernel
  have listing : DirectoryListing (ssStep start metaNamed) entries := by
    refine ⟨by decide +kernel, ?_⟩
    intro name
    constructor
    · intro listed
      simp only [entries, List.mem_cons, DirEntry.mk.injEq, and_true,
        List.not_mem_nil, or_false] at listed
      rcases listed with rfl | rfl
      · decide +kernel
      · decide +kernel
    · rintro ⟨_, stored⟩
      have isWritten :
          (ssStep start metaNamed).pathOf name ∈
            writtenPaths start metaNamed := by
        by_contra other
        rw [(stepEffect start metaNamed).disk_agrees.bytesAt_eq _ other]
          at stored
        cases stored
      have content : str "s/notes.meta" = str "s" ++ str "/" ++ str "notes.meta" := by
        decide
      have sidecar :
          str "s/notes.meta.meta" =
            str "s" ++ str "/" ++ str "notes.meta.meta" := by
        decide
      have path :
          (ssStep start metaNamed).pathOf name = str "s" ++ str "/" ++ name := by
        rw [StorageServer.pathOf, (stepEffect start metaNamed).storagePath_eq]
        rfl
      rw [written, path, content, sidecar] at isWritten
      simpa [entries] using isWritten
  obtain ⟨after, loaded, perm⟩ := survives 2 entries listing
  have nothing :
      ssLoadExistingFiles 2 entries (ssStep start metaNamed).restarted =
        .ok () (ssStep start metaNamed).restarted := by
    have notContent : isDocument ⟨str "notes.meta", false⟩ = false := by decide
    have notSidecar : isDocument ⟨str "notes.meta.meta", false⟩ = false := by
      decide
    simp [entries, ssLoadExistingFiles, notContent, notSidecar]
  rw [nothing] at loaded
  have sizes := perm.length_eq
  have loadedFiles : after.files = [] := by
    cases loaded
    rfl
  have oneFile : (ssStep start metaNamed).files.length = 1 := by
    decide +kernel
  rw [List.length_map, List.length_map, loadedFiles, oneFile] at sizes
  cases sizes

end DistributedDocs
