import DistributedDocs.GuardedRun
import DistributedDocs.StorageOutcomes
import DistributedDocs.StorageUndo
import DistributedDocs.TextTransfer

namespace DistributedDocs

/-!
# What a checkpoint holds

The path of a snapshot is made of the logical name, the second and the
sanitised tag, and nothing asks whether it is in use.  A trace records beside
the server which checkpoints have succeeded and what each document contained
then, so that the list, `VIEWCHECKPOINT` and `REVERT` can be compared with it.
-/

/-! ## `VIEWCHECKPOINT` -/

/-- The name `VIEWCHECKPOINT` shows for a checkpoint. -/
def checkpointDisplayName (rec : FileRecord) (tag : CString) : CString :=
  snprintf (maxFilenameLength + maxTagLength + 4)
    (rec.filename ++ str " [" ++ tag ++ str "]")

/-- `handle_client_viewcheckpoint`, from the record on. -/
def viewCheckpointRecord
    (now : Int)
    (fd : Nat)
    (username tag : CString)
    (rec : FileRecord) : Handler Unit := do
  ensure (ssCheckReadAccess rec username)
    (refuse errPermissionDenied "No read access")
  let some ckpt := ssFindCheckpoint rec tag
    | refuse errInvalidRequest "Checkpoint not found"
  ensure (← ssFileExists ckpt.filepath)
    (refuse errInternalError "Checkpoint data missing")
  let some content ← ssReadFileContent ckpt.filepath
    | refuse errInternalError "Failed to read checkpoint"
  (readMessages (checkpointDisplayName rec tag) content).forM
    (send (.client fd))
  ssTouchFileMetadata now rec (some username) false

/-- `handle_client_viewcheckpoint` -/
def handleClientViewcheckpoint
    (now : Int)
    (fd : Nat)
    (msg : List CString) : Handler Unit := do
  match msg with
  | _ :: username :: filename :: tag :: _ =>
      ensure (tagCopy tag ≠ [])
        (refuse errInvalidRequest "Checkpoint tag cannot be empty")
      let some rec := ssFindFile (← get).files filename
        | refuse errFileNotFound "File not found"
      viewCheckpointRecord now fd username (tagCopy tag) rec
  | _ =>
      refuse errInvalidRequest "Missing fields in REQ_VIEWCHECKPOINT"

/-! ## The checkpoints taken so far -/

/-- A checkpoint that succeeded, and the content of the document then. -/
structure TakenCheckpoint where
  address : Nat
  tag : CString
  content : Option RawBytes
  deriving DecidableEq

/-- The checkpoint an event takes. -/
def takenCheckpoint
    (ss : StorageServer)
    (event : SsEvent) : Option TakenCheckpoint :=
  match event.command with
  | .checkpoint _ (_ :: _ :: filename :: tag :: _) =>
      if Accepted ss event then
        (ssFindFile ss.files filename).map fun rec =>
          ⟨rec.address, tagCopy tag, ss.disk.bytesAt rec.filepath⟩
      else
        none
  | _ => none

/-- A server, and all checkpoints that have succeeded. -/
structure CheckpointTrace where
  server : StorageServer
  taken : List TakenCheckpoint

/-- One event, with the checkpoint it may take. -/
def checkpointStep
    (trace : CheckpointTrace)
    (event : SsEvent) : CheckpointTrace where
  server := ssStep trace.server event
  taken := trace.taken ++ (takenCheckpoint trace.server event).toList

/-- The checkpoints of the document at an address, in order. -/
def CheckpointTrace.takenOf
    (trace : CheckpointTrace)
    (address : Nat) : List TakenCheckpoint :=
  trace.taken.filter fun taken => taken.address = address

/-- The last elements of a list, at most `capacity` of them. -/
def lastOf {α : Type} (capacity : Nat) (list : List α) : List α :=
  list.drop (list.length - capacity)

/-- The checkpoints of a document that its list is to hold. -/
def CheckpointTrace.latestOf
    (trace : CheckpointTrace)
    (address : Nat) : List TakenCheckpoint :=
  lastOf ssMaxCheckpoints (trace.takenOf address)

/-- The paths of all listed snapshots. -/
def snapshotPaths (files : List FileRecord) : List CString :=
  files.flatMap fun rec => rec.checkpoints.map CheckpointRecord.filepath

/--
The paths an event writes, removes or renames, but for the snapshots that a
full list or a deleted document gives up.
-/
def overwrittenPaths (ss : StorageServer) (event : SsEvent) : List CString :=
  match event.command with
  | .checkpoint _ msg =>
      match checkpointTarget ss event.now msg with
      | some (rec, ckptPath) => [ckptPath, rec.metapath]
      | none => []
  | .deleteFile msg =>
      match deletedRecord ss msg with
      | some node => [node.filepath, node.metapath, node.undopath]
      | none => []
  | _ => writtenPaths ss event

/-- The record and the new snapshot path of a `CHECKPOINT` that is let through. -/
def newSnapshot
    (ss : StorageServer)
    (event : SsEvent) : Option (FileRecord × CString) :=
  match event.command with
  | .checkpoint _ msg => checkpointTarget ss event.now msg
  | _ => none

/--
No event writes where a listed snapshot lies, and no snapshot is taken onto the
document itself or its metadata.
-/
structure SparesSnapshots
    (trace : CheckpointTrace)
    (event : SsEvent) : Prop where
  spared :
    ∀ path ∈ overwrittenPaths trace.server event,
      path ∉ snapshotPaths trace.server.files
  apart :
    ∀ target ∈ newSnapshot trace.server event,
      target.2 ∉ [target.1.filepath, target.1.metapath]

instance SparesSnapshots.decidable
    (trace : CheckpointTrace)
    (event : SsEvent) :
    Decidable (SparesSnapshots trace event) :=
  decidable_of_iff
    ((∀ path ∈ overwrittenPaths trace.server event,
        path ∉ snapshotPaths trace.server.files) ∧
      ∀ target ∈ newSnapshot trace.server event,
        target.2 ∉ [target.1.filepath, target.1.metapath])
    ⟨fun ⟨spared, apart⟩ => ⟨spared, apart⟩,
      fun ⟨spared, apart⟩ => ⟨spared, apart⟩⟩

/-! ## Bounded histories -/

/-- Adding an element to a full history drops the oldest of its last ones. -/
theorem lastOf_concat
    {α : Type}
    {capacity : Nat}
    (positive : 0 < capacity)
    (list : List α)
    (last : α) :
    lastOf capacity (list ++ [last]) =
      (if capacity ≤ (lastOf capacity list).length then
        (lastOf capacity list).tail
      else
        lastOf capacity list) ++ [last] := by
  have length_eq :
      (lastOf capacity list).length = min list.length capacity := by
    simp only [lastOf, List.length_drop]
    omega
  rw [length_eq]
  by_cases full : capacity ≤ list.length
  · have shift :
        list.length + 1 - capacity = list.length - capacity + 1 := by
      omega
    rw [if_pos (by omega), lastOf, List.length_append, List.length_singleton,
      shift, List.drop_append_of_le_length (by omega), lastOf,
      List.tail_drop]
  · have short : list.length + 1 - capacity = 0 := by omega
    have shorter : list.length - capacity = 0 := by omega
    rw [if_neg (by omega), lastOf, List.length_append, List.length_singleton,
      short, lastOf, shorter]
    rfl

theorem mem_snapshotPaths
    {files : List FileRecord}
    {rec : FileRecord}
    {ckpt : CheckpointRecord}
    (present : rec ∈ files)
    (listed : ckpt ∈ rec.checkpoints) :
    ckpt.filepath ∈ snapshotPaths files :=
  List.mem_flatMap.mpr ⟨rec, present, List.mem_map_of_mem listed⟩

theorem checkpointStep_taken
    (trace : CheckpointTrace)
    (event : SsEvent)
    (address : Nat) :
    (checkpointStep trace event).takenOf address =
      trace.takenOf address ++
        (takenCheckpoint trace.server event).toList.filter
          fun taken => taken.address = address := by
  simp [CheckpointTrace.takenOf, checkpointStep]

/-! ## The invariant -/

/-- The snapshot is listed under the tag, and holds the content. -/
structure Holds
    (disk : Disk CString)
    (ckpt : CheckpointRecord)
    (taken : TakenCheckpoint) : Prop where
  tag_eq : ckpt.tag = taken.tag
  isSome : taken.content.isSome = true
  bytesAt_eq : disk.bytesAt ckpt.filepath = taken.content

/-- What is listed for one record. -/
structure ListsTaken
    (ss : StorageServer)
    (latest : List TakenCheckpoint)
    (rec : FileRecord) : Prop where
  tags_nodup : (rec.checkpoints.map CheckpointRecord.tag).Nodup
  tags_short :
    ∀ ckpt ∈ rec.checkpoints,
      ckpt.tag ≠ [] ∧ ckpt.tag.length < maxFilenameLength
  paths_nodup : (rec.checkpoints.map CheckpointRecord.filepath).Nodup
  own_apart : ∀ ckpt ∈ rec.checkpoints, ckpt.filepath ≠ rec.filepath
  holds : List.Forall₂ (Holds ss.disk) rec.checkpoints latest

/-- The invariant of a trace. -/
structure CheckpointsSound (trace : CheckpointTrace) : Prop extends
    RecordsPlaced trace.server where
  undisturbed : trace.server.disk.outcomes = []
  avoids_nul : trace.server.disk.Avoids 0
  undo_apart :
    ∀ rec ∈ trace.server.files, ∀ ckpt ∈ rec.checkpoints, ∀ path,
      ckpt.filepath ≠ path ++ ssUndoSuffix
  taken_lt :
    ∀ taken ∈ trace.taken, taken.address < trace.server.nextAddress
  paths_disjoint :
    ∀ r ∈ trace.server.files, ∀ q ∈ trace.server.files,
      r.address ≠ q.address →
        (r.checkpoints.map CheckpointRecord.filepath).Disjoint
          (q.checkpoints.map CheckpointRecord.filepath)
  listsTaken :
    ∀ rec ∈ trace.server.files,
      ListsTaken trace.server (trace.latestOf rec.address) rec

/-- The record had the same checkpoints before, or is new and has none. -/
def KeepsCheckpoints (ss : StorageServer) (r : FileRecord) : Prop :=
  (∃ q ∈ ss.files,
      q.address = r.address ∧ q.checkpoints = r.checkpoints) ∨
    r.checkpoints = [] ∧ ss.nextAddress ≤ r.address

theorem holds_transfer
    {before after : Disk CString}
    {checkpoints : List CheckpointRecord}
    {latest : List TakenCheckpoint}
    (holds : List.Forall₂ (Holds before) checkpoints latest)
    (agrees :
      ∀ ckpt ∈ checkpoints,
        after.bytesAt ckpt.filepath = before.bytesAt ckpt.filepath) :
    List.Forall₂ (Holds after) checkpoints latest := by
  induction holds with
  | nil =>
      exact .nil
  | cons head tail inductionHypothesis =>
      refine .cons ⟨head.tag_eq, head.isSome, ?_⟩
        (inductionHypothesis fun ckpt member =>
          agrees ckpt (List.mem_cons_of_mem _ member))
      exact (agrees _ List.mem_cons_self).trans head.bytesAt_eq

section Step

variable
  {trace : CheckpointTrace}
  (sound : CheckpointsSound trace)

include sound

theorem CheckpointsSound.takenOf_new
    {address : Nat}
    (new : trace.server.nextAddress ≤ address) :
    trace.takenOf address = [] := by
  rw [CheckpointTrace.takenOf, List.filter_eq_nil_iff]
  intro taken member
  have below := sound.taken_lt taken member
  simp only [decide_eq_true_eq]
  omega

/-- The parts of the invariant that every event preserves. -/
theorem CheckpointsSound.of_lists
    {event : SsEvent}
    (disjoint :
      ∀ r ∈ (ssStep trace.server event).files,
        ∀ q ∈ (ssStep trace.server event).files, r.address ≠ q.address →
          (r.checkpoints.map CheckpointRecord.filepath).Disjoint
            (q.checkpoints.map CheckpointRecord.filepath))
    (lists :
      ∀ rec ∈ (ssStep trace.server event).files,
        ListsTaken (ssStep trace.server event)
          ((checkpointStep trace event).latestOf rec.address) rec) :
    CheckpointsSound (checkpointStep trace event) := by
  have effect := stepEffect trace.server event
  have later :
      trace.server.nextAddress ≤ (ssStep trace.server event).nextAddress := by
    cases effect.records with
    | added isCreate created files_eq nextAddress_eq =>
        omega
    | kept files_eq nextAddress_eq
    | stored atTarget allowed files_eq nextAddress_eq
    | removed isDelete deleted files_eq nextAddress_eq =>
        exact nextAddress_eq.ge
  exact
    { toRecordsPlaced := sound.toRecordsPlaced.ssStep event
      undisturbed := effect.disk_agrees.undisturbed sound.undisturbed
      avoids_nul := effect.avoids_nul sound.avoids_nul
      undo_apart := checkpoints_ssStep sound.undo_apart
      taken_lt := by
        intro taken member
        rcases List.mem_append.mp member with old | new
        · exact lt_of_lt_of_le (sound.taken_lt taken old) later
        · refine lt_of_lt_of_le ?_ later
          simp only [takenCheckpoint, Option.mem_toList] at new
          split at new
          · split at new
            · obtain ⟨rec, found, rfl⟩ := Option.map_eq_some_iff.mp new
              exact sound.addresses_lt rec (ssFindFile_filename found).1
            · cases new
          · cases new
      paths_disjoint := disjoint
      listsTaken := lists }

/-- An event that takes no checkpoint and leaves the listed ones alone. -/
theorem CheckpointsSound.kept
    {event : SsEvent}
    (noneTaken : takenCheckpoint trace.server event = none)
    (keeps :
      ∀ r ∈ (ssStep trace.server event).files,
        KeepsCheckpoints trace.server r)
    (own :
      ∀ r ∈ (ssStep trace.server event).files, ∀ ckpt ∈ r.checkpoints,
        ckpt.filepath ≠ r.filepath)
    (agrees :
      ∀ r ∈ (ssStep trace.server event).files, ∀ ckpt ∈ r.checkpoints,
        (ssStep trace.server event).disk.bytesAt ckpt.filepath =
          trace.server.disk.bytesAt ckpt.filepath) :
    CheckpointsSound (checkpointStep trace event) := by
  have latest_eq :
      ∀ address,
        (checkpointStep trace event).latestOf address =
          trace.latestOf address := by
    intro address
    simp [CheckpointTrace.latestOf, checkpointStep_taken, noneTaken]
  refine sound.of_lists ?_ ?_
  · intro r rMember q qMember other
    rcases keeps r rMember with
      ⟨before, present, sameAddress, same⟩ | ⟨nothing, _⟩
    · rcases keeps q qMember with
        ⟨other', qPresent, qSameAddress, qSame⟩ | ⟨nothing, _⟩
      · rw [← same, ← qSame]
        exact sound.paths_disjoint before present other' qPresent (by
          rw [sameAddress, qSameAddress]
          exact other)
      · simp [nothing]
    · simp [nothing]
  · intro r member
    rw [latest_eq]
    rcases keeps r member with
      ⟨before, present, sameAddress, same⟩ | ⟨nothing, new⟩
    · have lists := sound.listsTaken before present
      rw [sameAddress] at lists
      exact
        { tags_nodup := same ▸ lists.tags_nodup
          tags_short := same ▸ lists.tags_short
          paths_nodup := same ▸ lists.paths_nodup
          own_apart := own r member
          holds :=
            holds_transfer (same ▸ lists.holds) (agrees r member) }
    · have noneOf := sound.takenOf_new new
      exact
        { tags_nodup := by simp [nothing]
          tags_short := by simp [nothing]
          paths_nodup := by simp [nothing]
          own_apart := by simp [nothing]
          holds := by
            simp [nothing, CheckpointTrace.latestOf, noneOf, lastOf] }

end Step

/-! ## Every way an event can end -/

theorem takenCheckpoint_of_not_checkpoint
    {ss : StorageServer}
    {event : SsEvent}
    (other : ∀ fd msg, event.command ≠ .checkpoint fd msg) :
    takenCheckpoint ss event = none := by
  obtain ⟨now, command⟩ := event
  cases command with
  | checkpoint fd msg =>
      exact absurd rfl (other fd msg)
  | _ =>
      rfl

/-- An event that is refused, or acts on no record, takes no checkpoint. -/
theorem takenCheckpoint_of_idle
    {ss : StorageServer}
    {event : SsEvent}
    (noSubject : Accepted ss event = true → event.subject ss = none) :
    takenCheckpoint ss event = none := by
  obtain ⟨now, command⟩ := event
  match command with
  | .checkpoint fd (type :: username :: filename :: tag :: rest) =>
      simp only [takenCheckpoint]
      split
      · next accepted =>
        have none : ssFindFile ss.files filename = none := noSubject accepted
        rw [none, Option.map_none]
      · rfl
  | .checkpoint fd [] | .checkpoint fd [_] | .checkpoint fd [_, _]
  | .checkpoint fd [_, _, _] =>
      rfl
  | .writeLock _ _ | .writeData _ _ | .etirw _ | .disconnected _
  | .undo _ _ | .revert _ _ | .createFile _ | .deleteFile _
  | .ssRename _ _ | .ssCopy _ _ =>
      rfl

section Outcomes

variable
  {trace : CheckpointTrace}
  {event : SsEvent}
  (sound : CheckpointsSound trace)

include sound

theorem CheckpointsSound.of_unchanged
    (noneTaken : takenCheckpoint trace.server event = none)
    (files_eq : (ssStep trace.server event).files = trace.server.files)
    (agrees :
      ∀ path ∈ snapshotPaths trace.server.files,
        (ssStep trace.server event).disk.bytesAt path =
          trace.server.disk.bytesAt path) :
    CheckpointsSound (checkpointStep trace event) := by
  refine sound.kept noneTaken ?_ ?_ ?_
  · intro r member
    exact Or.inl ⟨r, files_eq ▸ member, rfl, rfl⟩
  · intro r member
    exact (sound.listsTaken r (files_eq ▸ member)).own_apart
  · intro r member ckpt listed
    exact agrees _ (mem_snapshotPaths (files_eq ▸ member) listed)

/-- A record that keeps its checkpoints is stored, at paths of its own. -/
theorem CheckpointsSound.of_stored
    (noneTaken : takenCheckpoint trace.server event = none)
    {rec r : FileRecord}
    (present : rec ∈ trace.server.files)
    (files_eq :
      (ssStep trace.server event).files = storeRecord r trace.server.files)
    (address_eq : r.address = rec.address)
    (checkpoints_eq : r.checkpoints = rec.checkpoints)
    (own : ∀ ckpt ∈ rec.checkpoints, ckpt.filepath ≠ r.filepath)
    (spared :
      ∀ path ∈ writtenPaths trace.server event,
        path ∉ snapshotPaths trace.server.files) :
    CheckpointsSound (checkpointStep trace event) := by
  have predecessor :
      ∀ q ∈ (ssStep trace.server event).files,
        q ∈ trace.server.files ∨ q = r := by
    intro q member
    rw [files_eq] at member
    rcases mem_storeRecord member with ⟨old, _⟩ | new
    · exact Or.inl old
    · exact Or.inr new
  refine sound.kept noneTaken ?_ ?_ ?_
  · intro q member
    rcases predecessor q member with old | rfl
    · exact Or.inl ⟨q, old, rfl, rfl⟩
    · exact Or.inl ⟨rec, present, address_eq.symm, checkpoints_eq.symm⟩
  · intro q member ckpt listed
    rcases predecessor q member with old | rfl
    · exact (sound.listsTaken q old).own_apart ckpt listed
    · exact own ckpt (checkpoints_eq ▸ listed)
  · intro q member ckpt listed
    apply (stepEffect trace.server event).disk_agrees.bytesAt_eq
    intro written
    apply spared _ written
    rcases predecessor q member with old | rfl
    · exact mem_snapshotPaths old listed
    · exact mem_snapshotPaths present (checkpoints_eq ▸ listed)

theorem CheckpointsSound.of_created
    {msg : List CString}
    {newRecord : FileRecord}
    (isCreate : event.command = .createFile msg)
    (created : createdRecord trace.server event.now msg = some newRecord)
    (files_eq :
      (ssStep trace.server event).files = newRecord :: trace.server.files)
    (spared :
      ∀ path ∈ writtenPaths trace.server event,
        path ∉ snapshotPaths trace.server.files) :
    CheckpointsSound (checkpointStep trace event) := by
  obtain ⟨address_eq, placed, paths_eq⟩ := createdRecord_spec created
  have nothing : newRecord.checkpoints = [] := by
    rw [placed.paths_eq] at paths_eq
    simpa using paths_eq
  refine sound.kept
    (takenCheckpoint_of_not_checkpoint (by simp [isCreate])) ?_ ?_ ?_
  · intro r member
    rcases List.mem_cons.mp (files_eq ▸ member) with rfl | old
    · exact Or.inr ⟨nothing, address_eq.ge⟩
    · exact Or.inl ⟨r, old, rfl, rfl⟩
  · intro r member ckpt listed
    rcases List.mem_cons.mp (files_eq ▸ member) with rfl | old
    · simp [nothing] at listed
    · exact (sound.listsTaken r old).own_apart ckpt listed
  · intro r member ckpt listed
    rcases List.mem_cons.mp (files_eq ▸ member) with rfl | old
    · simp [nothing] at listed
    · apply (stepEffect trace.server event).disk_agrees.bytesAt_eq
      exact fun written =>
        spared _ written (mem_snapshotPaths old listed)

theorem CheckpointsSound.of_deleted
    {msg : List CString}
    {node : FileRecord}
    (isDelete : event.command = .deleteFile msg)
    (deleted : deletedRecord trace.server msg = some node)
    (files_eq :
      (ssStep trace.server event).files =
        trace.server.files.eraseP fun r => r.address = node.address)
    (disk_eq :
      (ssStep trace.server event).disk = trace.server.disk.clear node.paths)
    (guarded : SparesSnapshots trace event) :
    CheckpointsSound (checkpointStep trace event) := by
  obtain ⟨nodePresent, _⟩ := deletedRecord_subject deleted event.now
  have remains :
      ∀ r ∈ (ssStep trace.server event).files,
        r ∈ trace.server.files ∧ r.address ≠ node.address := by
    intro r member
    rw [files_eq] at member
    exact ⟨List.mem_of_mem_eraseP member,
      address_ne_of_mem_eraseP sound.addresses_nodup nodePresent member⟩
  have overwritten :
      overwrittenPaths trace.server event =
        [node.filepath, node.metapath, node.undopath] := by
    simp [overwrittenPaths, isDelete, deleted]
  refine sound.kept
    (takenCheckpoint_of_not_checkpoint (by simp [isDelete])) ?_ ?_ ?_
  · intro r member
    exact Or.inl ⟨r, (remains r member).1, rfl, rfl⟩
  · intro r member
    exact (sound.listsTaken r (remains r member).1).own_apart
  · intro r member ckpt listed
    obtain ⟨old, other⟩ := remains r member
    rw [disk_eq, Disk.bytesAt_clear, if_neg]
    intro removed
    rcases List.mem_append.mp removed with named | snapshot
    · exact guarded.spared _ (overwritten ▸ named)
        (mem_snapshotPaths old listed)
    · exact sound.paths_disjoint r old node nodePresent other
        (List.mem_map_of_mem listed) snapshot

end Outcomes

/-! ## A checkpoint that succeeds -/

theorem FileRecord.keptCheckpoints_sublist (rec : FileRecord) :
    rec.keptCheckpoints.Sublist rec.checkpoints := by
  unfold FileRecord.keptCheckpoints
  split
  · exact List.tail_sublist _
  · exact List.Sublist.refl _

theorem FileRecord.evictedPaths_sublist (rec : FileRecord) :
    rec.evictedPaths.Sublist
      (rec.checkpoints.map CheckpointRecord.filepath) := by
  unfold FileRecord.evictedPaths
  split
  · exact (List.take_sublist 1 _).map _
  · exact List.nil_sublist _

/-- The snapshot given up is none of those that stay. -/
theorem FileRecord.keptCheckpoints_apart
    {rec : FileRecord}
    (paths_nodup : (rec.checkpoints.map CheckpointRecord.filepath).Nodup)
    {ckpt : CheckpointRecord}
    (stays : ckpt ∈ rec.keptCheckpoints) :
    ckpt.filepath ∉ rec.evictedPaths := by
  unfold FileRecord.keptCheckpoints at stays
  unfold FileRecord.evictedPaths
  split at stays
  · next full =>
    rw [if_pos full]
    cases listed : rec.checkpoints with
    | nil =>
        simp
    | cons oldest others =>
        rw [listed] at paths_nodup stays
        simp only [List.map_cons, List.nodup_cons] at paths_nodup
        simp only [List.take_succ_cons, List.take_zero, List.map_cons,
          List.map_nil, List.mem_singleton]
        intro same
        exact paths_nodup.1 (same ▸ List.mem_map_of_mem stays)
  · next notFull =>
    rw [if_neg notFull]
    simp

/-- What a `CHECKPOINT` that is let through has been asked for. -/
theorem checkpointTarget_spec
    {ss : StorageServer}
    {now : Int}
    {type username filename tag : CString}
    {rest : List CString}
    {rec : FileRecord}
    {ckptPath : CString}
    (target :
      checkpointTarget ss now (type :: username :: filename :: tag :: rest) =
        some (rec, ckptPath)) :
    tagCopy tag ≠ [] ∧
      ssFindFile ss.files filename = some rec ∧
      ssFindCheckpoint rec (tagCopy tag) = none ∧
      checkpointPath ss.storagePath rec now (tagCopy tag) =
        some ckptPath := by
  simp only [checkpointTarget, snapshotPath, Option.ite_none_right_eq_some,
    Option.bind_eq_some_iff, Option.map_eq_some_iff, Prod.mk.injEq,
    Option.isNone_iff_eq_none] at target
  obtain ⟨nonempty, r, admitted, _, ⟨unknown, built⟩, rfl, rfl⟩ := target
  exact ⟨nonempty, admittedRecord_found admitted, unknown, built⟩

/-- A tag that is not found is not listed. -/
theorem not_listed_of_ssFindCheckpoint
    {rec : FileRecord}
    {tag : CString}
    (nonempty : tag ≠ [])
    (unknown : ssFindCheckpoint rec tag = none) :
    tag ∉ rec.checkpoints.map CheckpointRecord.tag := by
  intro member
  obtain ⟨ckpt, listed, same⟩ := List.mem_map.mp member
  rw [ssFindCheckpoint, if_neg nonempty, List.find?_eq_none] at unknown
  exact unknown ckpt listed (by rw [same]; simp [strncmpEq])

section Taken

variable
  {trace : CheckpointTrace}
  (sound : CheckpointsSound trace)
  {now : Int}
  {fd : Nat}
  {type username filename tag : CString}
  {rest : List CString}
  {rec : FileRecord}
  {ckptPath : CString}
  {bytes : RawBytes}
  (accepted :
    Accepted trace.server
        ⟨now, .checkpoint fd
          (type :: username :: filename :: tag :: rest)⟩ = true)
  (target :
    checkpointTarget trace.server now
        (type :: username :: filename :: tag :: rest) =
      some (rec, ckptPath))
  (present : trace.server.disk.bytesAt rec.filepath = some bytes)
  (guarded :
    SparesSnapshots trace
      ⟨now, .checkpoint fd (type :: username :: filename :: tag :: rest)⟩)

include target guarded in
/-- The paths a guarded checkpoint writes are new. -/
theorem SparesSnapshots.checkpoint_paths :
    ckptPath ∉ snapshotPaths trace.server.files ∧
      rec.metapath ∉ snapshotPaths trace.server.files ∧
      ckptPath ≠ rec.filepath ∧ ckptPath ≠ rec.metapath := by
  have overwritten :
      overwrittenPaths trace.server
          ⟨now, .checkpoint fd
            (type :: username :: filename :: tag :: rest)⟩ =
        [ckptPath, rec.metapath] := by
    simp only [overwrittenPaths, target]
  have apart := guarded.apart (rec, ckptPath) target
  simp only [List.mem_cons, List.not_mem_nil, or_false, not_or] at apart
  exact ⟨guarded.spared _ (by simp [overwritten]),
    guarded.spared _ (by simp [overwritten]), apart.1, apart.2⟩

include target guarded in
/-- A snapshot that is not given up is as before. -/
theorem bytesAt_diskAfterCheckpoint
    {path : CString}
    (listed : path ∈ snapshotPaths trace.server.files)
    (stays : path ∉ rec.evictedPaths)
    (description : CString) :
    (rec.diskAfterCheckpoint trace.server.disk bytes ckptPath
        description).bytesAt path =
      trace.server.disk.bytesAt path := by
  obtain ⟨newPath, notMeta, _, _⟩ := guarded.checkpoint_paths target
  have atNew : path ≠ ckptPath := by
    rintro rfl
    exact newPath listed
  have atMeta : path ≠ rec.metapath := by
    rintro rfl
    exact notMeta listed
  rw [FileRecord.diskAfterCheckpoint, Disk.bytesAt_set_of_ne atMeta,
    Disk.bytesAt_clear, if_neg stays, Disk.bytesAt_set_of_ne atNew]

include target guarded in
/-- The new snapshot holds the content. -/
theorem bytesAt_newSnapshot (description : CString) :
    (rec.diskAfterCheckpoint trace.server.disk bytes ckptPath
        description).bytesAt ckptPath =
      some bytes := by
  obtain ⟨newPath, _, notContent, notMeta⟩ :=
    guarded.checkpoint_paths target
  obtain ⟨_, found, _, _⟩ := checkpointTarget_spec target
  have stays : ckptPath ∉ rec.evictedPaths := by
    intro evicted
    obtain ⟨ckpt, listed, rfl⟩ :=
      List.mem_map.mp (rec.evictedPaths_sublist.subset evicted)
    exact newPath
      (mem_snapshotPaths (ssFindFile_filename found).1 listed)
  rw [FileRecord.diskAfterCheckpoint, Disk.bytesAt_set_of_ne notMeta,
    Disk.bytesAt_clear, if_neg stays, Disk.bytesAt_set_same,
    if_neg notContent.symm]

include sound accepted target present guarded in
theorem CheckpointsSound.of_checkpointed
    (ends :
      EndsWith trace.server
        (ssStep trace.server
          ⟨now, .checkpoint fd
            (type :: username :: filename :: tag :: rest)⟩)
        (storeRecord (rec.checkpointed now username (tagCopy tag) ckptPath)
          trace.server.files)
        (rec.diskAfterCheckpoint trace.server.disk bytes ckptPath
          (metadataText
            (rec.checkpointed now username (tagCopy tag) ckptPath)))
        []) :
    CheckpointsSound
      (checkpointStep trace
        ⟨now, .checkpoint fd
          (type :: username :: filename :: tag :: rest)⟩) := by
  obtain ⟨nonempty, found, unknown, _⟩ := checkpointTarget_spec target
  obtain ⟨newPath, notMeta, notContent, _⟩ :=
    guarded.checkpoint_paths target
  have recPresent := (ssFindFile_filename found).1
  have lists := sound.listsTaken rec recPresent
  generalize descriptionEq :
    metadataText (rec.checkpointed now username (tagCopy tag) ckptPath) =
      description at ends
  generalize newRecordEq :
    rec.checkpointed now username (tagCopy tag) ckptPath = newRecord at ends
  have address_eq : newRecord.address = rec.address := by
    rw [← newRecordEq]
    rfl
  have checkpoints_eq :
      newRecord.checkpoints =
        rec.keptCheckpoints ++ [⟨tagCopy tag, ckptPath⟩] := by
    rw [← newRecordEq]
    rfl
  have filepath_eq : newRecord.filepath = rec.filepath := by
    rw [← newRecordEq]
    rfl
  have takenNow :
      takenCheckpoint trace.server
          ⟨now, .checkpoint fd
            (type :: username :: filename :: tag :: rest)⟩ =
        some ⟨rec.address, tagCopy tag, some bytes⟩ := by
    simp [takenCheckpoint, accepted, found, present]
  have others :
      ∀ r ∈ (ssStep trace.server
          ⟨now, .checkpoint fd
            (type :: username :: filename :: tag :: rest)⟩).files,
        r ∈ trace.server.files ∧ r.address ≠ rec.address ∨
          r = newRecord := by
    intro r member
    rw [ends.files_eq] at member
    rcases mem_storeRecord member with ⟨old, other⟩ | new
    · exact Or.inl ⟨old, address_eq ▸ other⟩
    · exact Or.inr new
  have newPaths :
      ∀ path ∈ newRecord.checkpoints.map CheckpointRecord.filepath,
        path ∈ rec.checkpoints.map CheckpointRecord.filepath ∨
          path = ckptPath := by
    intro path member
    rw [checkpoints_eq, List.map_append, List.mem_append] at member
    rcases member with old | new
    · exact Or.inl
        ((rec.keptCheckpoints_sublist.map _).subset old)
    · exact Or.inr (by simpa using new)
  have disjointFrom :
      ∀ q ∈ trace.server.files, q.address ≠ rec.address →
        (newRecord.checkpoints.map CheckpointRecord.filepath).Disjoint
          (q.checkpoints.map CheckpointRecord.filepath) := by
    intro q qPresent other path mine theirs
    rcases newPaths path mine with old | rfl
    · exact sound.paths_disjoint rec recPresent q qPresent other.symm old
        theirs
    · obtain ⟨ckpt, listed, same⟩ := List.mem_map.mp theirs
      exact newPath (same ▸ mem_snapshotPaths qPresent listed)
  refine sound.of_lists ?_ ?_
  · intro r rMember q qMember other
    rcases others r rMember with ⟨rOld, rOther⟩ | rfl
    · rcases others q qMember with ⟨qOld, _⟩ | rfl
      · exact sound.paths_disjoint r rOld q qOld other
      · exact (disjointFrom r rOld rOther).symm
    · rcases others q qMember with ⟨qOld, qOther⟩ | rfl
      · exact disjointFrom q qOld qOther
      · exact absurd rfl other
  · intro r member
    rcases others r member with ⟨old, other⟩ | rfl
    · have latest_eq :
          (checkpointStep trace
              ⟨now, .checkpoint fd
                (type :: username :: filename :: tag :: rest)⟩).latestOf
                r.address =
            trace.latestOf r.address := by
        simp [CheckpointTrace.latestOf, checkpointStep_taken, takenNow,
          Ne.symm other]
      have before := sound.listsTaken r old
      rw [latest_eq]
      refine
        { tags_nodup := before.tags_nodup
          tags_short := before.tags_short
          paths_nodup := before.paths_nodup
          own_apart := before.own_apart
          holds := holds_transfer before.holds ?_ }
      intro ckpt listed
      rw [ends.disk_eq]
      refine bytesAt_diskAfterCheckpoint target guarded
        (mem_snapshotPaths old listed) ?_ _
      intro evicted
      exact sound.paths_disjoint r old rec recPresent other
        (List.mem_map_of_mem listed)
        (rec.evictedPaths_sublist.subset evicted)
    · have latest_eq :
          (checkpointStep trace
              ⟨now, .checkpoint fd
                (type :: username :: filename :: tag :: rest)⟩).latestOf
                r.address =
            (if ssMaxCheckpoints ≤ (trace.latestOf rec.address).length then
              (trace.latestOf rec.address).tail
            else
              trace.latestOf rec.address) ++
                [⟨rec.address, tagCopy tag, some bytes⟩] := by
        rw [CheckpointTrace.latestOf, checkpointStep_taken, takenNow,
          address_eq]
        simp only [Option.toList_some, List.filter_cons, decide_true,
          ↓reduceIte, List.filter_nil]
        exact lastOf_concat (by decide) _ _
      have kept_eq := lists.holds.length_eq
      have keptHolds :
          List.Forall₂ (Holds trace.server.disk) rec.keptCheckpoints
            (if ssMaxCheckpoints ≤ (trace.latestOf rec.address).length then
              (trace.latestOf rec.address).tail
            else
              trace.latestOf rec.address) := by
        rw [FileRecord.keptCheckpoints, kept_eq]
        split
        · rw [← List.drop_one, ← List.drop_one]
          exact List.forall₂_drop 1 lists.holds
        · exact lists.holds
      have staysHeld :
          ∀ ckpt ∈ rec.keptCheckpoints,
            (rec.diskAfterCheckpoint trace.server.disk bytes ckptPath
                description).bytesAt ckpt.filepath =
              trace.server.disk.bytesAt ckpt.filepath := by
        intro ckpt stays
        exact bytesAt_diskAfterCheckpoint target guarded
          (mem_snapshotPaths recPresent
            (rec.keptCheckpoints_sublist.subset stays))
          (FileRecord.keptCheckpoints_apart lists.paths_nodup stays) _
      rw [latest_eq]
      refine
        { tags_nodup := ?_
          tags_short := ?_
          paths_nodup := ?_
          own_apart := ?_
          holds := ?_ }
      · rw [checkpoints_eq, List.map_append]
        refine ((rec.keptCheckpoints_sublist.map _).nodup
          lists.tags_nodup).append (List.nodup_singleton _) ?_
        intro known old new
        obtain rfl : known = tagCopy tag := by simpa using new
        exact not_listed_of_ssFindCheckpoint nonempty unknown
          ((rec.keptCheckpoints_sublist.map _).subset old)
      · intro ckpt listed
        rw [checkpoints_eq, List.mem_append, List.mem_singleton] at listed
        rcases listed with old | rfl
        · exact lists.tags_short ckpt
            (rec.keptCheckpoints_sublist.subset old)
        · exact ⟨nonempty, tagCopy_short tag⟩
      · rw [checkpoints_eq, List.map_append]
        refine ((rec.keptCheckpoints_sublist.map _).nodup
          lists.paths_nodup).append (List.nodup_singleton _) ?_
        intro known old new
        obtain rfl : known = ckptPath := by simpa using new
        obtain ⟨ckpt, listed, same⟩ := List.mem_map.mp old
        exact newPath (same ▸ mem_snapshotPaths recPresent
          (rec.keptCheckpoints_sublist.subset listed))
      · intro ckpt listed
        rw [checkpoints_eq, List.mem_append, List.mem_singleton] at listed
        rw [filepath_eq]
        rcases listed with old | rfl
        · exact lists.own_apart ckpt
            (rec.keptCheckpoints_sublist.subset old)
        · exact notContent
      · rw [checkpoints_eq, ends.disk_eq]
        refine List.rel_append (holds_transfer keptHolds staysHeld)
          (.cons ⟨rfl, rfl, ?_⟩ .nil)
        exact bytesAt_newSnapshot target guarded _

end Taken

/-! ## Runs -/

theorem filepath_movedTo
    {storagePath newLogical : CString}
    (short : storagePath.length ≤ maxTagLength)
    (now : Int)
    (rec : FileRecord) :
    (rec.movedTo storagePath newLogical now).filepath =
      contentPath storagePath newLogical := by
  have pathShort := length_contentPath short newLogical
  exact safeStrcpy_of_short
    (lt_of_le_of_lt pathShort (by rw [maxPathLength]; omega))

/-- What one guarded event preserves. -/
theorem CheckpointsSound.checkpointStep
    {trace : CheckpointTrace}
    {event : SsEvent}
    (sound : CheckpointsSound trace)
    (guarded : SparesSnapshots trace event) :
    CheckpointsSound (DistributedDocs.checkpointStep trace event) := by
  have writes :
      (∀ fd msg, event.command ≠ .checkpoint fd msg) →
        (∀ msg, event.command ≠ .deleteFile msg) →
          ∀ path ∈ writtenPaths trace.server event,
            path ∉ snapshotPaths trace.server.files := by
    intro notCheckpoint notDelete path written
    apply guarded.spared
    unfold overwrittenPaths
    split
    · next isCheckpoint => exact absurd isCheckpoint (notCheckpoint _ _)
    · next isDelete => exact absurd isDelete (notDelete _)
    · exact written
  have ownOf :
      ∀ {rec : FileRecord}, event.subject trace.server = some rec →
        rec ∈ trace.server.files ∧
          ∀ ckpt ∈ rec.checkpoints, ckpt.filepath ≠ rec.filepath := by
    intro rec subject
    have present := mem_of_subject subject
    exact ⟨present, (sound.listsTaken rec present).own_apart⟩
  have outcome :=
    stepOutcome sound.toRecordsPlaced sound.undisturbed event
  obtain ⟨now, command⟩ := event
  cases outcome with
  | idle noSubject ends =>
      exact sound.of_unchanged (takenCheckpoint_of_idle noSubject)
        ends.files_eq fun path _ => by rw [ends.disk_eq]
  | committed isEtirw accepted subject present ends =>
      obtain rfl := isEtirw
      obtain ⟨member, own⟩ := ownOf subject
      exact sound.of_stored rfl member ends.files_eq rfl rfl own
        (writes (by simp) (by simp))
  | reverted isRevert accepted subject present ends =>
      obtain rfl := isRevert
      obtain ⟨member, own⟩ := ownOf subject
      exact sound.of_stored rfl member ends.files_eq rfl rfl own
        (writes (by simp) (by simp))
  | undone isUndo accepted subject available kept ends =>
      obtain rfl := isUndo
      obtain ⟨member, own⟩ := ownOf subject
      exact sound.of_stored rfl member ends.files_eq rfl rfl own
        (writes (by simp) (by simp))
  | notCheckpointed isCheckpoint refused target ends =>
      obtain rfl := isCheckpoint
      refine sound.of_unchanged (takenCheckpoint_of_idle (by simp [refused]))
        ends.files_eq ?_
      intro path listed
      rw [ends.disk_eq]
      apply Disk.bytesAt_set_of_ne
      rintro rfl
      exact guarded.spared _
        (by simp only [overwrittenPaths, target, List.mem_cons, true_or])
        listed
  | checkpointed isCheckpoint accepted target present ends =>
      obtain rfl := isCheckpoint
      exact sound.of_checkpointed accepted target present guarded ends
  | @renamed oldLogical newLogical rec bytes isRename accepted target
      present ends =>
      obtain rfl := isRename
      have admitted := target
      simp only [renamedRecord, Option.ite_none_right_eq_some,
        Bool.and_eq_true] at admitted
      have member := (ssFindFile_filename admitted.2).1
      have newContent :
          contentPath trace.server.storagePath newLogical ∈
            writtenPaths trace.server
              ⟨now, .ssRename oldLogical newLogical⟩ := by
        simp [writtenPaths, eventScope, renameCommandScope, target,
          renameScope]
      refine sound.of_stored rfl member ends.files_eq rfl rfl ?_
        (writes (by simp) (by simp))
      intro ckpt listed same
      rw [filepath_movedTo trace.server.storagePath.property] at same
      exact writes (by simp) (by simp) _ newContent
        (same ▸ mem_snapshotPaths member listed)
  | @notCopied peer msg srcRec destRec isCopy refused target ends =>
      obtain rfl := isCopy
      refine sound.of_unchanged rfl ends.files_eq ?_
      intro path listed
      apply (stepEffect trace.server _).disk_agrees.bytesAt_eq
      exact fun written =>
        writes (by simp) (by simp) _ written listed
  | copied isCopy accepted target ends =>
      obtain rfl := isCopy
      obtain ⟨_, subject⟩ := @copyTarget_found _ _ now _ _ _ target
      obtain ⟨member, own⟩ := ownOf subject
      exact sound.of_stored rfl member ends.files_eq rfl rfl own
        (writes (by simp) (by simp))
  | created isCreate accepted created ends =>
      obtain rfl := isCreate
      exact sound.of_created rfl created ends.files_eq
        (writes (by simp) (by simp))
  | deleted isDelete accepted deleted ends =>
      obtain rfl := isDelete
      exact sound.of_deleted rfl deleted ends.files_eq ends.disk_eq guarded

/-! ## What a sound trace tells -/

/-- A tag that is listed is viewed with the content of its snapshot. -/
theorem viewCheckpointRecord_undisturbed
    {ss : StorageServer}
    (undisturbed : ss.disk.outcomes = [])
    (now : Int)
    (fd : Nat)
    {username tag : CString}
    {rec : FileRecord}
    (allowed : ssCheckReadAccess rec username = true)
    {ckpt : CheckpointRecord}
    (found : ssFindCheckpoint rec tag = some ckpt)
    {bytes : RawBytes}
    (stored : ss.disk.bytesAt ckpt.filepath = some bytes) :
    ∃ after,
      viewCheckpointRecord now fd username tag rec ss = .ok () after ∧
        after.sent =
          ss.sent ++
            (readMessages (checkpointDisplayName rec tag)
              (cString bytes)).map (Message.mk (.client fd)) := by
  simp only [viewCheckpointRecord, bind_apply, ensure_apply, allowed,
    ↓reduceIte, found, ssFileExists, get_apply, pure_apply, stored,
    Option.isSome_some, ssReadFileContent_undisturbed undisturbed,
    Option.map_some, readMessages]
  refine ⟨_, ssTouchFileMetadata_undisturbed (by simpa using undisturbed)
    now rec (some username) false, ?_⟩
  simp

end DistributedDocs
