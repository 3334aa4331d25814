import DistributedDocs.GuardedRun
import DistributedDocs.StorageOutcomes

namespace DistributedDocs

/-!
# What `UNDO` gives back

Commits and `REVERT` keep the content they replace as the undo snapshot;
`SS_COPY` replaces the content and keeps nothing.  A trace records beside the
server which modification of one document came last and what it replaced, so
that `UNDO` can be compared with it.
-/

/-- The commands that modify the content of a document. -/
inductive Modification where
  | commit
  | revert
  | copy
  deriving DecidableEq

/--
The latest modification of a document since its creation or its last `UNDO`,
and the content it replaced.
-/
abbrev LatestModification := Option (Modification × Option RawBytes)

/-- A server, and the latest modification of one document. -/
structure TracedServer where
  server : StorageServer
  latest : LatestModification

/-- The latest modification of the document at `address` after an event. -/
def latestAfter
    (address : Nat)
    (traced : TracedServer)
    (event : SsEvent) : LatestModification :=
  match event.subject traced.server with
  | some rec =>
      if rec.address = address ∧ Accepted traced.server event = true then
        let replaced := traced.server.disk.bytesAt rec.filepath
        match event.command with
        | .etirw _ => some (.commit, replaced)
        | .revert _ _ => some (.revert, replaced)
        | .ssCopy _ _ => some (.copy, replaced)
        | .undo _ _ => none
        | _ => traced.latest
      else
        traced.latest
  | none => traced.latest

/-- One event, and what it means for the document at `address`. -/
def tracedStep
    (address : Nat)
    (traced : TracedServer)
    (event : SsEvent) : TracedServer where
  server := ssStep traced.server event
  latest := latestAfter address traced event

/-- The record an `UNDO` is let through for. -/
def undoTarget (ss : StorageServer) (event : SsEvent) : Option FileRecord :=
  match event.command with
  | .undo _ (_ :: username :: filename :: _) =>
      admittedRecord ss username filename
  | _ => none

/--
An `UNDO` that is let through succeeds exactly when the document has been
modified, and gives back what the latest modification replaced.
-/
def UndoReverts
    (address : Nat)
    (traced : TracedServer)
    (event : SsEvent) : Prop :=
  ∀ rec, undoTarget traced.server event = some rec →
    rec.address = address →
      (Accepted traced.server event = true ↔ traced.latest.isSome = true) ∧
        ∀ modification replaced,
          traced.latest = some (modification, replaced) →
            (ssStep traced.server event).disk.bytesAt rec.filepath =
              replaced

/--
No `UNDO` follows an `SS_COPY` into the document; no command on another record
writes the document's undo path, and no rename of the document goes onto its
own sidecar files.
-/
structure KeepsSnapshot
    (address : Nat)
    (traced : TracedServer)
    (event : SsEvent) : Prop where
  not_copied :
    ∀ rec ∈ undoTarget traced.server event, rec.address = address →
      traced.latest.map Prod.fst ≠ some .copy
  others :
    ∀ rec ∈ traced.server.files, rec.address = address →
      event.subject traced.server ≠ some rec →
        rec.undopath ∉ writtenPaths traced.server event
  renamed :
    ∀ moved ∈ movedFile traced.server event, moved.1.address = address →
      moved.2 ∉ [moved.1.metapath, moved.1.undopath]

instance KeepsSnapshot.decidable
    (address : Nat)
    (traced : TracedServer)
    (event : SsEvent) :
    Decidable (KeepsSnapshot address traced event) :=
  decidable_of_iff
    ((∀ rec ∈ undoTarget traced.server event, rec.address = address →
        traced.latest.map Prod.fst ≠ some .copy) ∧
      (∀ rec ∈ traced.server.files, rec.address = address →
        event.subject traced.server ≠ some rec →
          rec.undopath ∉ writtenPaths traced.server event) ∧
      ∀ moved ∈ movedFile traced.server event, moved.1.address = address →
        moved.2 ∉ [moved.1.metapath, moved.1.undopath])
    ⟨fun ⟨notCopied, others, renamed⟩ => ⟨notCopied, others, renamed⟩,
      fun ⟨notCopied, others, renamed⟩ => ⟨notCopied, others, renamed⟩⟩

/-- The snapshot on disk is what the latest modification replaced. -/
def SnapshotMatches
    (ss : StorageServer)
    (latest : LatestModification)
    (rec : FileRecord) : Prop :=
  match latest with
  | none => rec.undoAvailable = 0
  | some (.copy, _) => True
  | some (_, replaced) =>
      rec.undoAvailable ≠ 0 ∧ replaced.isSome = true ∧
        ss.disk.bytesAt rec.undopath = replaced

/-- The invariant of the trace of the document at `address`. -/
structure SnapshotSound
    (address : Nat)
    (traced : TracedServer) : Prop extends
    RecordsPlaced traced.server where
  undisturbed : traced.server.disk.outcomes = []
  avoids_nul : traced.server.disk.Avoids 0
  checkpoints_apart :
    ∀ rec ∈ traced.server.files, ∀ ckpt ∈ rec.checkpoints, ∀ path,
      ckpt.filepath ≠ path ++ ssUndoSuffix
  not_yet : traced.server.nextAddress ≤ address → traced.latest = none
  snapshot :
    ∀ rec ∈ traced.server.files, rec.address = address →
      SnapshotMatches traced.server traced.latest rec

/-! ## The snapshot in its place -/

theorem FileRecord.WellPlaced.bytesAt_undopath_diskAfter
    {storagePath : CString}
    {rec : FileRecord}
    (placed : rec.WellPlaced storagePath)
    (disk : Disk CString)
    (snapshot content : RawBytes)
    (description : CString) :
    (rec.diskAfter disk snapshot content description).bytesAt rec.undopath =
      some snapshot := by
  obtain ⟨notContent, notMeta⟩ := placed.undopath_apart
  rw [FileRecord.diskAfter, Disk.bytesAt_set_of_ne notMeta,
    Disk.bytesAt_set_of_ne notContent, Disk.bytesAt_set_same]

/-- The scratch path of a copy lies beside the content. -/
theorem FileRecord.WellPlaced.copyTempPath_eq
    {storagePath : CString}
    (short : storagePath.length ≤ maxTagLength)
    {rec : FileRecord}
    (placed : rec.WellPlaced storagePath) :
    copyTempPath rec = rec.filepath ++ str ".copytmp" := by
  have pathShort := length_contentPath short rec.filename
  have suffixLength : (str ".copytmp").length = 8 := by decide
  have fits :
      (contentPath storagePath rec.filename ++ str ".copytmp").length <
        maxPathLength := by
    rw [List.length_append, suffixLength, maxPathLength]
    omega
  rw [copyTempPath, placed.filepath_eq, snprintf_of_short fits]

theorem FileRecord.WellPlaced.undopath_ne_copyTempPath
    {storagePath : CString}
    (short : storagePath.length ≤ maxTagLength)
    {rec : FileRecord}
    (placed : rec.WellPlaced storagePath) :
    rec.undopath ≠ copyTempPath rec := by
  rw [placed.copyTempPath_eq short, placed.undopath_eq]
  intro same
  have suffixes := List.append_cancel_left same
  exact absurd suffixes (by decide)

theorem FileRecord.WellPlaced.filepath_ne_copyTempPath
    {storagePath : CString}
    (short : storagePath.length ≤ maxTagLength)
    {rec : FileRecord}
    (placed : rec.WellPlaced storagePath) :
    rec.filepath ≠ copyTempPath rec := by
  rw [placed.copyTempPath_eq short]
  simpa using (by decide : str ".copytmp" ≠ [])

/-- What an `UNDO` that is let through does, with and without a snapshot. -/
theorem ssStep_undo_undisturbed
    {ss : StorageServer}
    (undisturbed : ss.disk.outcomes = [])
    {event : SsEvent}
    {rec : FileRecord}
    (target : undoTarget ss event = some rec) :
    (rec.undoAvailable = 0 → Accepted ss event = false) ∧
      ∀ snapshot, rec.undoAvailable ≠ 0 →
        ss.disk.bytesAt rec.undopath = some snapshot →
          Accepted ss event = true ∧
            ∃ description,
              (ssStep ss event).disk =
                (ss.disk.set rec.filepath
                  (some (rawBytes (cString snapshot)))).set rec.metapath
                    (some description) := by
  obtain ⟨now, command⟩ := event
  match command with
  | .undo fd (type :: username :: filename :: rest) =>
      have handled :
          SsEvent.handler
              ⟨now, .undo fd (type :: username :: filename :: rest)⟩ ss =
            undoRecord now fd username rec ss :=
        handler_of_admitted target (undoRecord now fd username)
      constructor
      · intro nothing
        obtain ⟨refusal, refused⟩ :=
          undoRecord_refused now fd username rec (Or.inl nothing)
        exact (refused_of_handler (handled.trans refused)).1
      · intro snapshot available kept
        have done :=
          undoRecord_undisturbed undisturbed now fd username rec available
            kept
        obtain ⟨accepted, stepped⟩ :=
          accepted_of_handler (handled.trans done)
        exact ⟨accepted, _, congrArg StorageServer.disk stepped⟩

/-! ## What a step does to the trace -/

/-- The subject of an event is a record of the server. -/
theorem mem_of_subject
    {ss : StorageServer}
    {event : SsEvent}
    {rec : FileRecord}
    (subject : event.subject ss = some rec) :
    rec ∈ ss.files := by
  obtain ⟨now, command⟩ := event
  unfold SsEvent.subject at subject
  split at subject
  · obtain ⟨_, _, reached⟩ := Option.bind_eq_some_iff.mp subject
    exact (mem_of_recordAt reached).1
  all_goals first
    | exact (ssFindFile_filename subject).1
    | cases subject

/-- The same snapshot under the undo path of another record. -/
theorem SnapshotMatches.moved
    {before after : StorageServer}
    {latest : LatestModification}
    {rec r : FileRecord}
    (sound : SnapshotMatches before latest rec)
    (undoAvailable_eq : r.undoAvailable = rec.undoAvailable)
    (snapshotMoved :
      ∀ snapshot, before.disk.bytesAt rec.undopath = some snapshot →
        after.disk.bytesAt r.undopath = some snapshot) :
    SnapshotMatches after latest r := by
  match latest with
  | none =>
      exact undoAvailable_eq.trans sound
  | some (.copy, _) =>
      trivial
  | some (.commit, replaced) | some (.revert, replaced) =>
      obtain ⟨available, isSome, kept⟩ := sound
      obtain ⟨snapshot, rfl⟩ := Option.isSome_iff_exists.mp isSome
      exact ⟨undoAvailable_eq ▸ available, isSome,
        snapshotMoved snapshot kept⟩

theorem SnapshotMatches.transfer
    {before after : StorageServer}
    {latest : LatestModification}
    {rec r : FileRecord}
    (sound : SnapshotMatches before latest rec)
    (undoAvailable_eq : r.undoAvailable = rec.undoAvailable)
    (bytes_eq :
      after.disk.bytesAt r.undopath = before.disk.bytesAt rec.undopath) :
    SnapshotMatches after latest r :=
  sound.moved undoAvailable_eq fun _ kept => bytes_eq.trans kept

theorem SnapshotMatches.kept
    {ss : StorageServer}
    {latest : LatestModification}
    {rec : FileRecord}
    (sound : SnapshotMatches ss latest rec)
    (available : rec.undoAvailable ≠ 0)
    (notCopied : latest.map Prod.fst ≠ some .copy) :
    ∃ snapshot, ss.disk.bytesAt rec.undopath = some snapshot := by
  match latest with
  | none =>
      exact absurd sound available
  | some (.copy, _) =>
      exact absurd rfl notCopied
  | some (.commit, replaced) | some (.revert, replaced) =>
      obtain ⟨_, isSome, kept⟩ := sound
      obtain ⟨snapshot, rfl⟩ := Option.isSome_iff_exists.mp isSome
      exact ⟨snapshot, kept⟩

theorem SnapshotMatches.replaced_eq
    {ss : StorageServer}
    {modification : Modification}
    {replaced : Option RawBytes}
    {rec : FileRecord}
    (sound : SnapshotMatches ss (some (modification, replaced)) rec)
    (notCopied : modification ≠ .copy) :
    rec.undoAvailable ≠ 0 ∧ ss.disk.bytesAt rec.undopath = replaced := by
  cases modification with
  | copy =>
      exact absurd rfl notCopied
  | commit | revert =>
      exact ⟨sound.1, sound.2.2⟩

theorem mem_of_undoTarget
    {ss : StorageServer}
    {event : SsEvent}
    {rec : FileRecord}
    (target : undoTarget ss event = some rec) :
    rec ∈ ss.files := by
  unfold undoTarget at target
  split at target
  · exact (ssFindFile_filename (admittedRecord_found target)).1
  · cases target

theorem latestAfter_of_refused
    {address : Nat}
    {traced : TracedServer}
    {event : SsEvent}
    (refused : Accepted traced.server event = false) :
    latestAfter address traced event = traced.latest := by
  unfold latestAfter
  split
  · simp [refused]
  · rfl

theorem latestAfter_of_not_subject
    {address : Nat}
    {traced : TracedServer}
    {event : SsEvent}
    (other :
      ∀ rec, event.subject traced.server = some rec →
        rec.address ≠ address) :
    latestAfter address traced event = traced.latest := by
  unfold latestAfter
  cases subject : event.subject traced.server with
  | none =>
      rfl
  | some rec =>
      simp [other rec subject]

theorem checkpoints_ssStep
    {ss : StorageServer}
    {event : SsEvent}
    (apart :
      ∀ rec ∈ ss.files, ∀ ckpt ∈ rec.checkpoints, ∀ path,
        ckpt.filepath ≠ path ++ ssUndoSuffix) :
    ∀ r ∈ (ssStep ss event).files, ∀ ckpt ∈ r.checkpoints, ∀ path,
      ckpt.filepath ≠ path ++ ssUndoSuffix := by
  intro r member ckpt ckptMember path
  rcases mem_files_ssStep member with
    present | ⟨_, allowed⟩ | ⟨msg, _, created⟩
  · exact apart r present ckpt ckptMember path
  · have keptOr :
        ∀ {rec : FileRecord} {extra : List CString} {keepsUndo : Prop},
          rec ∈ ss.files → rec.KeepsNames extra keepsUndo r →
            (∀ added ∈ extra, added ≠ path ++ ssUndoSuffix) →
              ckpt.filepath ≠ path ++ ssUndoSuffix := by
      intro rec extra keepsUndo present keeps extraApart
      have inside :=
        keeps.checkpoints_sublist.subset
          (List.mem_map_of_mem ckptMember)
      rcases List.mem_append.mp inside with old | added
      · obtain ⟨known, knownMember, same⟩ := List.mem_map.mp old
        exact same ▸ apart rec present known knownMember path
      · exact extraApart _ added
    have shape := eventScope_spec ss event
    generalize eventScope ss event = scope at shape allowed
    cases shape with
    | idle keepsSessions =>
        exact False.elim allowed
    | content keepsSessions present subject =>
        exact keptOr present allowed (by simp)
    | checkpoint present subject built taken freed =>
        refine keptOr present allowed ?_
        simp only [List.mem_cons, List.not_mem_nil, or_false]
        rintro _ rfl
        obtain ⟨tag, built⟩ := built
        exact checkpointPath_ne_undo built path
    | rename present subject nameShort taken freed =>
        obtain ⟨now, rfl⟩ := allowed
        exact apart _ present ckpt ckptMember path
    | copy present subject taken freed =>
        exact keptOr present allowed (by simp)
  · have named := (createdRecord_spec created).2.1.paths_eq
    rw [(createdRecord_spec created).2.2] at named
    have none : r.checkpoints = [] := by
      simpa using named
    rw [none] at ckptMember
    cases ckptMember

theorem undoAvailable_createdRecord
    {ss : StorageServer}
    {now : Int}
    {msg : List CString}
    {newRecord : FileRecord}
    (created : createdRecord ss now msg = some newRecord) :
    newRecord.undoAvailable = 0 := by
  match msg with
  | _ :: filename :: owner :: _ =>
      simp only [createdRecord, Option.ite_none_right_eq_some,
        Option.some.injEq] at created
      obtain ⟨_, rfl⟩ := created
      rfl

/-- Removing the record at an address leaves no record there. -/
theorem address_ne_of_mem_eraseP
    {files : List FileRecord}
    (addresses : (files.map FileRecord.address).Nodup)
    {node r : FileRecord}
    (present : node ∈ files)
    (member : r ∈ files.eraseP fun q => q.address = node.address) :
    r.address ≠ node.address := by
  obtain ⟨removed, first, last, _, isNode, rfl, erased⟩ :=
    List.exists_of_eraseP (p := fun q => decide (q.address = node.address))
      present (by simp)
  have sameAddress : removed.address = node.address := by
    simpa using isNode
  rw [erased] at member
  have others : r ∈ first ∨ r ∈ last := List.mem_append.mp member
  rw [List.map_append, List.map_cons, List.nodup_middle,
    List.nodup_cons] at addresses
  intro same
  apply addresses.1
  rw [sameAddress, ← same, ← List.map_append]
  exact List.mem_map_of_mem (List.mem_append.mpr others)

/-- What the records at `address` are to satisfy after the event. -/
def MatchesAfter
    (address : Nat)
    (traced : TracedServer)
    (event : SsEvent) : Prop :=
  ∀ r ∈ (ssStep traced.server event).files, r.address = address →
    SnapshotMatches (ssStep traced.server event)
      (latestAfter address traced event) r

section Step

variable
  {address : Nat}
  {traced : TracedServer}
  {event : SsEvent}
  (sound : SnapshotSound address traced)

include sound

theorem SnapshotSound.matchesAfter_of_not_subject
    (guarded : KeepsSnapshot address traced event)
    (other :
      ∀ rec, event.subject traced.server = some rec →
        rec.address ≠ address) :
    MatchesAfter address traced event := by
  intro r member atAddress
  rw [latestAfter_of_not_subject other]
  rcases mem_files_ssStep member with
    present | ⟨atTarget, allowed⟩ | ⟨msg, _, created⟩
  · have notSubject : event.subject traced.server ≠ some r :=
      fun subject => other r subject atAddress
    refine (sound.snapshot r present atAddress).transfer rfl ?_
    exact (stepEffect traced.server event).disk_agrees.bytesAt_eq _
      (guarded.others r present atAddress notSubject)
  · obtain ⟨_, rec, _, subject, same⟩ :=
      sound.toRecordsPlaced.of_allowed allowed
    exact absurd (same.trans (atTarget.symm.trans atAddress))
      (other rec subject)
  · have atNext := (createdRecord_spec created).1
    rw [sound.not_yet (by omega)]
    exact undoAvailable_createdRecord created

/-- An event that is refused without a trace changes nothing. -/
theorem SnapshotSound.matchesAfter_of_no_trace
    (refused : Accepted traced.server event = false)
    (files_eq : (ssStep traced.server event).files = traced.server.files)
    (disk_eq : (ssStep traced.server event).disk = traced.server.disk) :
    MatchesAfter address traced event := by
  intro r member atAddress
  rw [latestAfter_of_refused refused]
  rw [files_eq] at member
  exact (sound.snapshot r member atAddress).transfer rfl (by rw [disk_eq])

variable
  {rec : FileRecord}
  (subject : event.subject traced.server = some rec)
  (atAddress : rec.address = address)

include subject atAddress

omit sound subject in
/-- After a record has been stored at the address, it is the one there. -/
theorem matchesAfter_of_stored
    {newRecord : FileRecord}
    (sameAddress : newRecord.address = rec.address)
    (stored :
      (ssStep traced.server event).files =
        storeRecord newRecord traced.server.files)
    (fits :
      SnapshotMatches (ssStep traced.server event)
        (latestAfter address traced event) newRecord) :
    MatchesAfter address traced event := by
  intro r member rAtAddress
  rw [stored] at member
  rcases mem_storeRecord member with ⟨_, different⟩ | rfl
  · exact absurd (rAtAddress.trans (atAddress.symm.trans sameAddress.symm))
      different
  · exact fits

/-- An event that keeps the record's names and its undo path. -/
theorem SnapshotSound.matchesAfter_of_kept
    (latest_eq : latestAfter address traced event = traced.latest)
    (outside : rec.undopath ∉ writtenPaths traced.server event)
    (notCreate : ∀ msg, event.command ≠ .createFile msg)
    (keeps :
      ∀ r, (eventScope traced.server event).allowed r →
        r.undopath = rec.undopath ∧ r.undoAvailable = rec.undoAvailable) :
    MatchesAfter address traced event := by
  intro r member rAtAddress
  rw [latest_eq]
  have present := mem_of_subject subject
  have bytes_eq :=
    (stepEffect traced.server event).disk_agrees.bytesAt_eq _ outside
  have before := sound.snapshot rec present atAddress
  rcases mem_files_ssStep member with
    rPresent | ⟨_, allowed⟩ | ⟨msg, isCreate, _⟩
  · have isRec :=
      eq_of_address sound.addresses_nodup rPresent present
        (rAtAddress.trans atAddress.symm)
    exact before.transfer (by rw [isRec]) (by rw [isRec, bytes_eq])
  · obtain ⟨undopath_eq, undoAvailable_eq⟩ := keeps r allowed
    exact before.transfer undoAvailable_eq (by rw [undopath_eq, bytes_eq])
  · exact absurd isCreate (notCreate msg)

omit sound in
theorem latestAfter_of_accepted
    (accepted : Accepted traced.server event = true) :
    latestAfter address traced event =
      match event.command with
      | .etirw _ => some (.commit, traced.server.disk.bytesAt rec.filepath)
      | .revert _ _ => some (.revert, traced.server.disk.bytesAt rec.filepath)
      | .ssCopy _ _ => some (.copy, traced.server.disk.bytesAt rec.filepath)
      | .undo _ _ => none
      | _ => traced.latest := by
  simp only [latestAfter, subject, atAddress, accepted, and_self, ↓reduceIte]

/-- A record rewritten over its snapshot has the snapshot it replaced. -/
theorem SnapshotSound.matchesAfter_of_rewritten
    {now : Int}
    {username : CString}
    {before content : RawBytes}
    {description : CString}
    {modification : Modification}
    (notCopy : modification ≠ .copy)
    (stored :
      (ssStep traced.server event).files =
        storeRecord (rec.rewritten now username 1) traced.server.files)
    (onDisk :
      (ssStep traced.server event).disk =
        rec.diskAfter traced.server.disk before content description)
    (latest_eq :
      latestAfter address traced event = some (modification, some before)) :
    MatchesAfter address traced event := by
  have sameAddress :
      (rec.rewritten now username 1).address = rec.address := rfl
  refine matchesAfter_of_stored atAddress sameAddress stored ?_
  have kept :
      (ssStep traced.server event).disk.bytesAt rec.undopath =
        some before := by
    rw [onDisk]
    exact (sound.wellPlaced rec
      (mem_of_subject subject)).bytesAt_undopath_diskAfter _ _ _ _
  have available : (rec.rewritten now username 1).undoAvailable = 1 := rfl
  rw [latest_eq]
  cases modification with
  | commit =>
      exact ⟨by rw [available]; decide, rfl, kept⟩
  | revert =>
      exact ⟨by rw [available]; decide, rfl, kept⟩
  | copy =>
      exact absurd rfl notCopy

end Step

section Commands

variable
  {address : Nat}
  {traced : TracedServer}
  (sound : SnapshotSound address traced)
  (now : Int)
  {rec : FileRecord}
  (atAddress : rec.address = address)

include sound atAddress

theorem SnapshotSound.matchesAfter_checkpoint
    {fd : Nat}
    {msg : List CString}
    (subject :
      SsEvent.subject traced.server ⟨now, .checkpoint fd msg⟩ = some rec) :
    MatchesAfter address traced ⟨now, .checkpoint fd msg⟩ := by
  have present := mem_of_subject subject
  have placed := sound.wellPlaced rec present
  have latest_eq :
      latestAfter address traced ⟨now, .checkpoint fd msg⟩ =
        traced.latest := by
    simp [latestAfter, subject]
  cases admitted : checkpointTarget traced.server now msg with
  | none =>
      exact sound.matchesAfter_of_kept subject atAddress latest_eq
        (by simp [writtenPaths, eventScope, checkpointCommandScope, admitted,
          noScope])
        (by simp)
        (by simp [eventScope, checkpointCommandScope, admitted, noScope])
  | some target =>
      obtain ⟨_, isSubject, tag, built⟩ :=
        @checkpointTarget_found _ fd _ _ _ _ admitted
      obtain rfl : target.1 = rec :=
        Option.some.inj (isSubject.symm.trans subject)
      have scope_eq :
          eventScope traced.server ⟨now, .checkpoint fd msg⟩ =
            checkpointScope target.1 target.2 := by
        simp [eventScope, checkpointCommandScope, admitted]
      refine sound.matchesAfter_of_kept subject atAddress latest_eq ?_
        (by simp) ?_
      · have notCheckpoint := checkpointPath_ne_undo built target.1.filepath
        rw [← placed.undopath_eq] at notCheckpoint
        simp only [writtenPaths, scope_eq, checkpointScope, List.mem_cons,
          List.mem_map, not_or, not_exists, not_and]
        refine ⟨notCheckpoint.symm, placed.undopath_apart.2, ?_⟩
        intro ckpt ckptMember same
        rw [placed.undopath_eq] at same
        exact sound.checkpoints_apart _ present ckpt ckptMember _ same
      · rw [scope_eq]
        intro r allowed
        exact ⟨allowed.undopath_eq, allowed.undoAvailable_eq trivial⟩

/-- A copy either replaces the content or leaves the snapshot valid. -/
theorem SnapshotSound.matchesAfter_ssCopy
    {peer : PeerSession}
    {msg : List CString}
    (subject :
      SsEvent.subject traced.server ⟨now, .ssCopy peer msg⟩ = some rec) :
    MatchesAfter address traced ⟨now, .ssCopy peer msg⟩ := by
  have present := mem_of_subject subject
  have placed := sound.wellPlaced rec present
  cases accepted : Accepted traced.server ⟨now, .ssCopy peer msg⟩ with
  | true =>
      intro r member rAtAddress
      rw [latestAfter_of_accepted subject atAddress accepted]
      trivial
  | false =>
      have latest_eq :=
        @latestAfter_of_refused address _ _ accepted
      cases admitted : copyTarget traced.server msg with
      | none =>
          exact sound.matchesAfter_of_kept subject atAddress latest_eq
            (by simp [writtenPaths, eventScope, copyCommandScope, admitted,
              noScope])
            (by simp)
            (by simp [eventScope, copyCommandScope, admitted, noScope])
      | some target =>
          obtain ⟨_, isSubject⟩ :=
            @copyTarget_found _ peer now _ _ _ admitted
          obtain rfl : target.2 = rec :=
            Option.some.inj (isSubject.symm.trans subject)
          have scope_eq :
              eventScope traced.server ⟨now, .ssCopy peer msg⟩ =
                copyScope target.2 := by
            simp [eventScope, copyCommandScope, admitted]
          refine sound.matchesAfter_of_kept subject atAddress latest_eq ?_
            (by simp) ?_
          · obtain ⟨notContent, notMeta⟩ := placed.undopath_apart
            simp only [writtenPaths, scope_eq, copyScope, List.mem_cons,
              List.not_mem_nil, or_false, not_or]
            exact ⟨placed.undopath_ne_copyTempPath
              traced.server.storagePath.property, notContent, notMeta⟩
          · rw [scope_eq]
            intro r allowed
            exact ⟨allowed.undopath_eq, allowed.undoAvailable_eq trivial⟩

theorem SnapshotSound.matchesAfter_deleteFile
    {msg : List CString}
    (subject :
      SsEvent.subject traced.server ⟨now, .deleteFile msg⟩ = some rec) :
    MatchesAfter address traced ⟨now, .deleteFile msg⟩ := by
  have present := mem_of_subject subject
  cases deleted : deletedRecord traced.server msg with
  | none =>
      exact sound.matchesAfter_of_kept subject atAddress
        (by simp [latestAfter, subject])
        (by simp [writtenPaths, deleted])
        (by simp)
        (by simp [eventScope, noScope])
  | some node =>
      intro r member rAtAddress
      obtain ⟨_, isSubject⟩ := deletedRecord_subject deleted now
      obtain rfl : node = rec :=
        Option.some.inj (isSubject.symm.trans subject)
      have shape := ssStep_deleteFile traced.server now msg
      rw [deleted] at shape
      obtain ⟨middle, effect, sent, stepped⟩ := shape
      have filesKept : middle.files = traced.server.files :=
        effect.files_eq_of_allows_nothing fun _ => id
      rw [stepped, filesKept] at member
      exact absurd (rAtAddress.trans atAddress.symm)
        (address_ne_of_mem_eraseP sound.addresses_nodup present member)

theorem SnapshotSound.matchesAfter_ssRename
    {oldLogical newLogical : CString}
    (guarded :
      KeepsSnapshot address traced ⟨now, .ssRename oldLogical newLogical⟩)
    (subject :
      SsEvent.subject traced.server ⟨now, .ssRename oldLogical newLogical⟩ =
        some rec)
    {bytes : RawBytes}
    (content : traced.server.disk.bytesAt rec.filepath = some bytes) :
    MatchesAfter address traced ⟨now, .ssRename oldLogical newLogical⟩ := by
  have present := mem_of_subject subject
  have placed := sound.wellPlaced rec present
  have latest_eq :
      latestAfter address traced ⟨now, .ssRename oldLogical newLogical⟩ =
        traced.latest := by
    simp [latestAfter, subject]
  cases admitted : renamedRecord traced.server oldLogical newLogical with
  | none =>
      exact sound.matchesAfter_of_kept subject atAddress latest_eq
        (by simp [writtenPaths, eventScope, renameCommandScope, admitted,
          noScope])
        (by simp)
        (by simp [eventScope, renameCommandScope, admitted, noScope])
  | some moved =>
      have isValid := admitted
      simp only [renamedRecord, Option.ite_none_right_eq_some] at isValid
      obtain ⟨valid, found⟩ := isValid
      obtain rfl : moved = rec := Option.some.inj (found.symm.trans subject)
      have clear :=
        guarded.renamed
          (moved, contentPath traced.server.storagePath newLogical)
          (by simp [movedFile, found]) atAddress
      obtain ⟨_, disk, sent, stepped, _, snapshotMoved⟩ :=
        ssStep_ssRename_undisturbed sound.undisturbed now admitted placed
          content clear
      have nameShort :=
        length_of_validateFilename (Bool.and_eq_true_iff.mp valid).2
      obtain ⟨newPlaced, _⟩ :=
        paths_renamed traced.server.storagePath.property nameShort now
          moved
      refine matchesAfter_of_stored atAddress ?_
        (congrArg StorageServer.files stepped) ?_
      · rfl
      · rw [latest_eq, stepped]
        refine (sound.snapshot moved present atAddress).moved rfl ?_
        intro snapshot kept
        rw [newPlaced.undopath_eq, newPlaced.filepath_eq]
        simpa only [FileRecord.touched, FileRecord.renamed,
          safeStrcpy_of_short nameShort]
          using snapshotMoved snapshot kept

end Commands

/-- Every way a guarded event can end leaves a snapshot that matches. -/
theorem SnapshotSound.matchesAfter
    {address : Nat}
    {traced : TracedServer}
    {event : SsEvent}
    (sound : SnapshotSound address traced)
    (guarded : KeepsSnapshot address traced event) :
    MatchesAfter address traced event := by
  by_cases other :
      ∀ rec, event.subject traced.server = some rec →
        rec.address ≠ address
  · exact sound.matchesAfter_of_not_subject guarded other
  push Not at other
  obtain ⟨rec, subject, atAddress⟩ := other
  have outcome :=
    stepOutcome sound.toRecordsPlaced sound.undisturbed event
  obtain ⟨now, command⟩ := event
  cases outcome with
  | idle noSubject ends =>
      refine sound.matchesAfter_of_no_trace ?_ ends.files_eq ends.disk_eq
      cases accepted : Accepted traced.server ⟨now, command⟩ with
      | false =>
          rfl
      | true =>
          rw [noSubject accepted] at subject
          cases subject
  | committed isEtirw accepted isSubject present ends =>
      obtain rfl := isEtirw
      obtain rfl := Option.some.inj (isSubject.symm.trans subject)
      have onDisk := ends.disk_eq
      rw [rawBytes_cString (sound.avoids_nul _ _ present)] at onDisk
      have latest_eq := latestAfter_of_accepted subject atAddress accepted
      rw [present] at latest_eq
      exact sound.matchesAfter_of_rewritten subject atAddress (by decide)
        ends.files_eq onDisk latest_eq
  | reverted isRevert accepted isSubject present ends =>
      obtain rfl := isRevert
      obtain rfl := Option.some.inj (isSubject.symm.trans subject)
      have latest_eq := latestAfter_of_accepted subject atAddress accepted
      rw [present] at latest_eq
      exact sound.matchesAfter_of_rewritten subject atAddress (by decide)
        ends.files_eq ends.disk_eq latest_eq
  | undone isUndo accepted isSubject available kept ends =>
      obtain rfl := isUndo
      obtain rfl := Option.some.inj (isSubject.symm.trans subject)
      refine matchesAfter_of_stored atAddress ?_ ends.files_eq ?_
      · rfl
      · rw [latestAfter_of_accepted subject atAddress accepted]
        rfl
  | notCheckpointed isCheckpoint refused target ends =>
      obtain rfl := isCheckpoint
      exact sound.matchesAfter_checkpoint now atAddress subject
  | checkpointed isCheckpoint accepted target present ends =>
      obtain rfl := isCheckpoint
      exact sound.matchesAfter_checkpoint now atAddress subject
  | renamed isRename accepted target present ends =>
      obtain rfl := isRename
      have found := target
      simp only [renamedRecord, Option.ite_none_right_eq_some] at found
      obtain rfl := Option.some.inj (found.2.symm.trans subject)
      exact sound.matchesAfter_ssRename now atAddress guarded subject present
  | notCopied isCopy refused target ends =>
      obtain rfl := isCopy
      exact sound.matchesAfter_ssCopy now atAddress subject
  | copied isCopy accepted target ends =>
      obtain rfl := isCopy
      exact sound.matchesAfter_ssCopy now atAddress subject
  | created isCreate accepted created ends =>
      obtain rfl := isCreate
      cases subject
  | deleted isDelete accepted deleted ends =>
      obtain rfl := isDelete
      exact sound.matchesAfter_deleteFile now atAddress subject

/-- What one guarded step preserves. -/
theorem SnapshotSound.tracedStep
    {address : Nat}
    {traced : TracedServer}
    {event : SsEvent}
    (sound : SnapshotSound address traced)
    (guarded : KeepsSnapshot address traced event) :
    SnapshotSound address (DistributedDocs.tracedStep address traced event) := by
  have effect := stepEffect traced.server event
  have snapshot : MatchesAfter address traced event :=
    sound.matchesAfter guarded
  exact
    { toRecordsPlaced := sound.toRecordsPlaced.ssStep event
      undisturbed := effect.disk_agrees.undisturbed sound.undisturbed
      avoids_nul := effect.avoids_nul sound.avoids_nul
      checkpoints_apart := checkpoints_ssStep sound.checkpoints_apart
      not_yet := by
        intro later
        have earlier : traced.server.nextAddress ≤ address := by
          cases effect.records with
          | added isCreate created files_eq nextAddress_eq =>
              have further : traced.server.nextAddress + 1 ≤ address :=
                nextAddress_eq ▸ later
              exact Nat.le_of_succ_le further
          | kept files_eq nextAddress_eq
          | stored atTarget allowed files_eq nextAddress_eq
          | removed isDelete deleted files_eq nextAddress_eq =>
              exact nextAddress_eq ▸ later
        refine (latestAfter_of_not_subject ?_).trans (sound.not_yet earlier)
        intro rec subject atAddress
        have below := sound.addresses_lt rec (mem_of_subject subject)
        omega
      snapshot := snapshot }

/-- A sound trace tells what an `UNDO` that is let through does. -/
theorem SnapshotSound.undoReverts
    {address : Nat}
    {traced : TracedServer}
    {event : SsEvent}
    (sound : SnapshotSound address traced)
    (guarded : KeepsSnapshot address traced event) :
    UndoReverts address traced event := by
  intro rec target atAddress
  have present := mem_of_undoTarget target
  have matching := sound.snapshot rec present atAddress
  have notCopied := guarded.not_copied rec target atAddress
  obtain ⟨refusedWithout, doneWith⟩ :=
    ssStep_undo_undisturbed sound.undisturbed target
  cases latest : traced.latest with
  | none =>
      rw [latest] at matching
      simp [refusedWithout matching]
  | some last =>
      obtain ⟨modification, replaced⟩ := last
      rw [latest] at matching notCopied
      obtain ⟨available, replaced_eq⟩ :=
        matching.replaced_eq (by simpa using notCopied)
      obtain ⟨snapshot, kept⟩ := matching.kept available notCopied
      obtain ⟨accepted, _, onDisk⟩ := doneWith snapshot available kept
      have notMeta : rec.filepath ≠ rec.metapath := by
        have nonempty : ssMetaSuffix ≠ [] := by decide
        simpa [(sound.wellPlaced rec present).metapath_eq] using nonempty
      refine ⟨by simp [accepted], ?_⟩
      rintro _ _ ⟨rfl, rfl⟩
      rw [onDisk, Disk.bytesAt_set_of_ne notMeta, Disk.bytesAt_set_same,
        rawBytes_cString (sound.avoids_nul _ _ kept), ← replaced_eq, kept]

/--
From a new server on, as long as no `UNDO` follows an `SS_COPY`, every `UNDO`
that is let through gives back what the latest modification replaced.
-/
theorem undoReverts_of_keepsSnapshot
    (address : Nat)
    {start : StorageServer}
    (noFiles : start.files = [])
    (undisturbed : start.disk.outcomes = [])
    (nulFree : start.disk.Avoids 0)
    {past : List SsEvent}
    {event : SsEvent}
    (guarded :
      GuardedRun (tracedStep address) (KeepsSnapshot address)
        ⟨start, none⟩ (past ++ [event])) :
    UndoReverts address (runFrom (tracedStep address) ⟨start, none⟩ past)
      event := by
  obtain ⟨guardedPast, guardedEvent, _⟩ := GuardedRun.append_iff.mp guarded
  have initially : SnapshotSound address ⟨start, none⟩ :=
    { toRecordsPlaced := recordsPlaced_of_no_files noFiles
      undisturbed := undisturbed
      avoids_nul := nulFree
      checkpoints_apart := by simp [noFiles]
      not_yet := fun _ => rfl
      snapshot := by simp [noFiles] }
  have sound :=
    guardedPast.invariant (fun _ _ sound guard => sound.tracedStep guard)
      initially
  exact sound.undoReverts guardedEvent

/-- A document, a first commit to it, and a second one. -/
def committedTwice : List SsEvent :=
  [ ⟨1, .createFile [str "CREATE_FILE", str "a", str "ada"]⟩,
    ⟨2, .writeLock 4 [str "REQ_WRITE_LOCK", str "ada", str "a", str "0"]⟩,
    ⟨3, .writeData 4 [str "WRITE_DATA", str "0", str "Old."]⟩,
    ⟨4, .etirw 4⟩,
    ⟨5, .writeLock 4 [str "REQ_WRITE_LOCK", str "ada", str "a", str "0"]⟩,
    ⟨6, .writeData 4 [str "WRITE_DATA", str "0", str "Very"]⟩,
    ⟨7, .etirw 4⟩ ]

/-- An `UNDO` by the owner. -/
def undoByOwner : SsEvent :=
  ⟨9, .undo 5 [str "REQ_UNDO", str "ada", str "a"]⟩

theorem undoReverts_committedTwice :
    UndoReverts 0
      (runFrom (tracedStep 0) ⟨newServer ⟨str "s", by decide⟩, none⟩
        committedTwice)
      undoByOwner :=
  undoReverts_of_keepsSnapshot 0 rfl rfl (by intro _ _ stored; cases stored)
    (by decide +kernel)

/-- A commit, and a copy from another server over it. -/
def committedAndCopied : List SsEvent :=
  committedTwice.take 4 ++
    [ ⟨8, .ssCopy
        (.answers [some [str "OK_CONTENT", str "New."],
          some [str "OK_READ_END"]])
        [str "SS_COPY", str "a", str "10.0.0.7", str "9001", str "b",
          str "ada"]⟩ ]

/-- After the copy `UNDO` gives back what the commit before it replaced. -/
theorem undo_skips_copiedContent :
    let copied :=
      runFrom (tracedStep 0) ⟨newServer ⟨str "s", by decide⟩, none⟩
        committedAndCopied
    copied.latest = some (.copy, some (rawBytes (str "Old."))) ∧
      copied.server.disk.bytesAt (str "s/a") =
        some (rawBytes (str "New.")) ∧
      (ssStep copied.server undoByOwner).disk.bytesAt (str "s/a") =
        some [] ∧
      ¬UndoReverts 0 copied undoByOwner := by
  intro copied
  have copiedLast :
      copied.latest = some (.copy, some (rawBytes (str "Old."))) := by
    decide +kernel
  have emptied :
      (ssStep copied.server undoByOwner).disk.bytesAt (str "s/a") =
        some [] := by
    decide +kernel
  have target :
      (undoTarget copied.server undoByOwner).map
          (fun rec => (rec.filepath, rec.address)) =
        some (str "s/a", 0) := by
    decide +kernel
  refine ⟨copiedLast, by decide +kernel, emptied, ?_⟩
  intro reverts
  obtain ⟨rec, isTarget, named⟩ := Option.map_eq_some_iff.mp target
  obtain ⟨atContent, atAddress⟩ := Prod.mk.inj named
  have restored :=
    (reverts rec isTarget atAddress).2 _ _ copiedLast
  rw [atContent, emptied] at restored
  exact absurd restored (by decide)

end DistributedDocs
