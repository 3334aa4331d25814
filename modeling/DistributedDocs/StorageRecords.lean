import DistributedDocs.StorageSteps

namespace DistributedDocs

/-!
# Records across a step

Which record a command acts on, which paths it takes, gives up and writes, and
what a step can do to the list of records.  Records always stay where their
logical names say.
-/

/-- The content, metadata and undo path of a logical name. -/
def namedPaths (storagePath logicalName : CString) : List CString :=
  let path := contentPath storagePath logicalName
  [path, path ++ ssMetaSuffix, path ++ ssUndoSuffix]

/-- The record a command acts on, as the server finds it. -/
def SsEvent.subject
    (ss : StorageServer)
    (event : SsEvent) : Option FileRecord :=
  match event.command with
  | .etirw fd =>
      (ssFindSession ss.sessions fd).bind fun session =>
        recordAt ss.files session.file
  | .undo _ (_ :: _ :: filename :: _) => ssFindFile ss.files filename
  | .checkpoint _ (_ :: _ :: filename :: _) => ssFindFile ss.files filename
  | .revert _ (_ :: _ :: filename :: _) => ssFindFile ss.files filename
  | .deleteFile (_ :: filename :: _) => ssFindFile ss.files filename
  | .ssRename oldLogical _ => ssFindFile ss.files oldLogical
  | .ssCopy _ (_ :: destFilename :: _) => ssFindFile ss.files destFilename
  | _ => none

/-- The paths a command that passes its checks takes into use. -/
def takenPaths (ss : StorageServer) (event : SsEvent) : List CString :=
  match event.command with
  | .createFile msg =>
      match createdRecord ss event.now msg with
      | some newRecord => namedPaths ss.storagePath newRecord.filename
      | none => []
  | .checkpoint _ msg =>
      match checkpointTarget ss event.now msg with
      | some (_, ckptPath) => [ckptPath]
      | none => []
  | .ssRename oldLogical newLogical =>
      match renamedRecord ss oldLogical newLogical with
      | some _ => namedPaths ss.storagePath newLogical
      | none => []
  | .ssCopy _ msg =>
      match copyTarget ss msg with
      | some (_, destRec) => [copyTempPath destRec]
      | none => []
  | _ => []

/-- The paths a command gives up: a rename frees those of the old name. -/
def freedPaths (ss : StorageServer) (event : SsEvent) : List CString :=
  match event.command with
  | .ssRename oldLogical _ => namedPaths ss.storagePath oldLogical
  | _ => []

/-- The record a rename moves, and its new content path. -/
def movedFile
    (ss : StorageServer)
    (event : SsEvent) : Option (FileRecord × CString) :=
  match event.command with
  | .ssRename oldLogical newLogical =>
      (ssFindFile ss.files oldLogical).map fun rec =>
        (rec, contentPath ss.storagePath newLogical)
  | _ => none

theorem FileRecord.WellPlaced.paths_eq
    {storagePath : CString}
    {rec : FileRecord}
    (placed : rec.WellPlaced storagePath) :
    rec.paths =
      namedPaths storagePath rec.filename ++
        rec.checkpoints.map CheckpointRecord.filepath := by
  simp [FileRecord.paths, namedPaths, placed.metapath_eq,
    placed.undopath_eq, placed.filepath_eq]

theorem namedPaths_nodup (storagePath logicalName : CString) :
    (namedPaths storagePath logicalName).Nodup := by
  have metaNonempty : ssMetaSuffix ≠ [] := by decide
  have undoNonempty : ssUndoSuffix ≠ [] := by decide
  have different : ssMetaSuffix ≠ ssUndoSuffix := by decide
  simp [namedPaths, metaNonempty, undoNonempty, different]

theorem length_suffix_le :
    ssMetaSuffix.length ≤ 5 ∧ ssUndoSuffix.length ≤ 5 := by
  decide

/-- The paths of a record after a rename from and to valid names. -/
theorem paths_renamed
    {storagePath newLogical : CString}
    (short : storagePath.length ≤ maxTagLength)
    (nameShort : newLogical.length < maxFilenameLength)
    (now : Int)
    (rec : FileRecord) :
    let newPath := contentPath storagePath newLogical
    let r :=
      (rec.renamed newLogical (physicalNameOf newLogical) newPath
        (snprintf maxPathLength (newPath ++ ssMetaSuffix))
        (snprintf maxPathLength (newPath ++ ssUndoSuffix))).touched now
          none true
    r.WellPlaced storagePath ∧
      r.paths =
        namedPaths storagePath newLogical ++
          rec.checkpoints.map CheckpointRecord.filepath := by
  intro newPath r
  have pathShort : newPath.length ≤ 1000 :=
    length_contentPath short newLogical
  obtain ⟨metaShort, undoShort⟩ := length_suffix_le
  have fits :
      ∀ suffix : CString, suffix.length ≤ 5 →
        safeStrcpy (snprintf maxPathLength (newPath ++ suffix))
            maxPathLength =
          newPath ++ suffix := by
    intro suffix suffixShort
    have wholeShort : (newPath ++ suffix).length < maxPathLength := by
      rw [List.length_append, maxPathLength]
      omega
    rw [snprintf_of_short wholeShort, safeStrcpy_of_short wholeShort]
  have placed : r.WellPlaced storagePath := by
    have contentShort : newPath.length < maxPathLength := by
      rw [maxPathLength]
      omega
    have atContent : r.filepath = newPath := safeStrcpy_of_short contentShort
    have named : r.filename = newLogical := safeStrcpy_of_short nameShort
    exact
      { filepath_eq := by rw [atContent, named]
        metapath_eq := by
          rw [atContent]
          exact fits ssMetaSuffix metaShort
        undopath_eq := by
          rw [atContent]
          exact fits ssUndoSuffix undoShort }
  refine ⟨placed, ?_⟩
  have named : r.filename = newLogical := safeStrcpy_of_short nameShort
  rw [placed.paths_eq, named]
  rfl

/-- The footprint of a rename is made of the paths of the two names. -/
theorem mem_footprint_renameScope
    {storagePath oldLogical newLogical : CString}
    (short : storagePath.length ≤ maxTagLength)
    {rec : FileRecord}
    {path : CString}
    (inside :
      path ∈
        (renameScope rec newLogical (physicalNameOf newLogical)
          (contentPath storagePath oldLogical)
          (contentPath storagePath newLogical)).footprint) :
    path ∈ namedPaths storagePath oldLogical ∨
      path ∈ namedPaths storagePath newLogical := by
  obtain ⟨metaShort, undoShort⟩ := length_suffix_le
  have fits :
      ∀ logicalName suffix : CString, suffix.length ≤ 5 →
        snprintf maxPathLength
            (contentPath storagePath logicalName ++ suffix) =
          contentPath storagePath logicalName ++ suffix := by
    intro logicalName suffix suffixShort
    have pathShort := length_contentPath short logicalName
    apply snprintf_of_short
    rw [List.length_append, maxPathLength]
    omega
  simp only [renameScope, fits _ _ metaShort, fits _ _ undoShort,
    List.mem_cons, List.not_mem_nil, or_false] at inside
  simp only [namedPaths, List.mem_cons, List.not_mem_nil, or_false]
  tauto

/-! ## The scope of a command belongs to its subject -/

/-- The scope of an event, with the record it belongs to. -/
inductive EventScope (ss : StorageServer) (event : SsEvent) : Scope → Prop
  | idle (keepsSessions : Prop) :
      EventScope ss event (noScope keepsSessions)
  | content
      {rec : FileRecord}
      (keepsSessions : Prop)
      (present : rec ∈ ss.files)
      (subject : event.subject ss = some rec) :
      EventScope ss event (contentScope rec keepsSessions)
  | checkpoint
      {rec : FileRecord}
      {ckptPath : CString}
      (present : rec ∈ ss.files)
      (subject : event.subject ss = some rec)
      (built :
        ∃ tag,
          checkpointPath ss.storagePath rec event.now tag = some ckptPath)
      (taken : ckptPath ∈ takenPaths ss event)
      (freed : freedPaths ss event = []) :
      EventScope ss event (checkpointScope rec ckptPath)
  | rename
      {rec : FileRecord}
      {newLogical : CString}
      (present : rec ∈ ss.files)
      (subject : event.subject ss = some rec)
      (nameShort : newLogical.length < maxFilenameLength)
      (taken : takenPaths ss event = namedPaths ss.storagePath newLogical)
      (freed :
        freedPaths ss event = namedPaths ss.storagePath rec.filename) :
      EventScope ss event
        (renameScope rec newLogical (physicalNameOf newLogical)
          (contentPath ss.storagePath rec.filename)
          (contentPath ss.storagePath newLogical))
  | copy
      {destRec : FileRecord}
      (present : destRec ∈ ss.files)
      (subject : event.subject ss = some destRec)
      (taken : copyTempPath destRec ∈ takenPaths ss event)
      (freed : freedPaths ss event = []) :
      EventScope ss event (copyScope destRec)

theorem admittedRecord_found
    {ss : StorageServer}
    {username filename : CString}
    {rec : FileRecord}
    (admitted : admittedRecord ss username filename = some rec) :
    ssFindFile ss.files filename = some rec := by
  unfold admittedRecord at admitted
  cases found : ssFindFile ss.files filename with
  | none =>
      simp [found] at admitted
  | some r =>
      simp only [found, Option.ite_none_right_eq_some] at admitted
      exact admitted.2

theorem checkpointTarget_found
    {ss : StorageServer}
    {fd : Nat}
    {now : Int}
    {msg : List CString}
    {rec : FileRecord}
    {ckptPath : CString}
    (admitted : checkpointTarget ss now msg = some (rec, ckptPath)) :
    rec ∈ ss.files ∧
      SsEvent.subject ss ⟨now, .checkpoint fd msg⟩ = some rec ∧
      ∃ tag, checkpointPath ss.storagePath rec now tag = some ckptPath := by
  match msg with
  | _ :: username :: filename :: tag :: _ =>
      simp only [checkpointTarget, snapshotPath,
        Option.ite_none_right_eq_some, Option.bind_eq_some_iff,
        Option.map_eq_some_iff, Prod.mk.injEq] at admitted
      obtain ⟨_, r, found, _, ⟨_, built⟩, rfl, rfl⟩ := admitted
      have found := admittedRecord_found found
      exact ⟨(ssFindFile_filename found).1, found, _, built⟩

theorem copyTarget_found
    {ss : StorageServer}
    {peer : PeerSession}
    {now : Int}
    {msg : List CString}
    {srcRec : Option FileRecord}
    {destRec : FileRecord}
    (admitted : copyTarget ss msg = some (srcRec, destRec)) :
    destRec ∈ ss.files ∧
      SsEvent.subject ss ⟨now, .ssCopy peer msg⟩ = some destRec := by
  match msg with
  | _ :: destFilename :: srcIp :: srcPortField :: srcFilename ::
      username :: _ =>
      simp only [copyTarget, admittedCopy, Option.ite_none_right_eq_some]
        at admitted
      cases found : ssFindFile ss.files destFilename with
      | none =>
          simp [found] at admitted
      | some r =>
          simp only [found, Option.ite_none_right_eq_some,
            Option.some.injEq, Prod.mk.injEq] at admitted
          obtain ⟨_, _, _, rfl⟩ := admitted
          exact ⟨(ssFindFile_filename found).1, found⟩

theorem admittedContentScope_spec
    {ss : StorageServer}
    {event : SsEvent}
    {username filename : CString}
    (subject : event.subject ss = ssFindFile ss.files filename) :
    EventScope ss event (admittedContentScope ss username filename) := by
  unfold admittedContentScope
  cases admitted : admittedRecord ss username filename with
  | none =>
      exact .idle True
  | some rec =>
      have found := admittedRecord_found admitted
      exact .content True (ssFindFile_filename found).1
        (subject.trans found)

/-- Every command works on its subject, or on nothing. -/
theorem eventScope_spec (ss : StorageServer) (event : SsEvent) :
    EventScope ss event (eventScope ss event) := by
  obtain ⟨now, command⟩ := event
  cases command with
  | writeLock fd msg =>
      exact .idle False
  | writeData fd msg =>
      exact .idle False
  | disconnected fd =>
      exact .idle False
  | createFile msg =>
      exact .idle True
  | deleteFile msg =>
      exact .idle True
  | etirw fd =>
      simp only [eventScope, etirwScope]
      cases found : ssFindSession ss.sessions fd with
      | none =>
          exact .idle True
      | some session =>
          cases reached : recordAt ss.files session.file with
          | none =>
              simp only [reached]
              exact .idle True
          | some rec =>
              simp only [reached]
              refine .content False (mem_of_recordAt reached).1 ?_
              simp [SsEvent.subject, found, reached]
  | undo fd msg =>
      rcases msg with _ | ⟨type, _ | ⟨username, _ | ⟨filename, rest⟩⟩⟩
      iterate 3 exact .idle True
      exact admittedContentScope_spec rfl
  | revert fd msg =>
      rcases msg with
        _ | ⟨type, _ | ⟨username, _ | ⟨filename, _ | ⟨tag, rest⟩⟩⟩⟩
      iterate 4 exact .idle True
      simp only [eventScope, revertScope]
      split
      · exact admittedContentScope_spec rfl
      · exact .idle True
  | checkpoint fd msg =>
      simp only [eventScope, checkpointCommandScope]
      cases admitted : checkpointTarget ss now msg with
      | none =>
          exact .idle True
      | some target =>
          obtain ⟨present, subject, built⟩ :=
            checkpointTarget_found admitted
          exact .checkpoint present subject built
            (by simp [takenPaths, admitted]) rfl
  | ssRename oldLogical newLogical =>
      simp only [eventScope, renameCommandScope]
      cases admitted : renamedRecord ss oldLogical newLogical with
      | none =>
          exact .idle True
      | some rec =>
          have taken :
              takenPaths ss ⟨now, .ssRename oldLogical newLogical⟩ =
                namedPaths ss.storagePath newLogical := by
            simp [takenPaths, admitted]
          simp only [renamedRecord, Option.ite_none_right_eq_some,
            Bool.and_eq_true] at admitted
          obtain ⟨present, rfl⟩ := ssFindFile_filename admitted.2
          exact .rename present admitted.2
            (length_of_validateFilename admitted.1.2) taken rfl
  | ssCopy peer msg =>
      simp only [eventScope, copyCommandScope]
      cases admitted : copyTarget ss msg with
      | none =>
          exact .idle True
      | some target =>
          obtain ⟨present, subject⟩ := copyTarget_found admitted
          exact .copy present subject (by simp [takenPaths, admitted]) rfl

/-- The subject of an event owns the scope of the event. -/
theorem target_of_eventScope (ss : StorageServer) (event : SsEvent) :
    (∃ keepsSessions, eventScope ss event = noScope keepsSessions) ∨
      ∃ rec ∈ ss.files,
        event.subject ss = some rec ∧
          rec.address = (eventScope ss event).target := by
  have shape := eventScope_spec ss event
  generalize eventScope ss event = scope at shape ⊢
  cases shape with
  | idle keepsSessions =>
      exact Or.inl ⟨keepsSessions, rfl⟩
  | content keepsSessions present subject =>
      exact Or.inr ⟨_, present, subject, rfl⟩
  | checkpoint present subject built taken freed =>
      exact Or.inr ⟨_, present, subject, rfl⟩
  | rename present subject nameShort taken freed =>
      exact Or.inr ⟨_, present, subject, rfl⟩
  | copy present subject taken freed =>
      exact Or.inr ⟨_, present, subject, rfl⟩

/-! ## What a step can do -/

theorem eq_of_address
    {files : List FileRecord}
    (addresses : (files.map FileRecord.address).Nodup)
    {r q : FileRecord}
    (rPresent : r ∈ files)
    (qPresent : q ∈ files)
    (same : r.address = q.address) :
    r = q :=
  List.inj_on_of_nodup_map addresses rPresent qPresent same

theorem Effect.files_eq_of_allows_nothing
    {scope : Scope}
    {before after : StorageServer}
    (effect : Effect scope before after)
    (nothing : ∀ r, ¬scope.allowed r) :
    after.files = before.files := by
  rcases effect.files_stored with kept | ⟨r, _, allowed, _⟩
  · exact kept
  · exact absurd allowed (nothing r)

theorem createdRecord_spec
    {ss : StorageServer}
    {now : Int}
    {msg : List CString}
    {newRecord : FileRecord}
    (created : createdRecord ss now msg = some newRecord) :
    newRecord.address = ss.nextAddress ∧
      newRecord.WellPlaced ss.storagePath ∧
      newRecord.paths = namedPaths ss.storagePath newRecord.filename := by
  match msg with
  | _ :: filename :: owner :: _ =>
      simp only [createdRecord, Option.ite_none_right_eq_some,
        Bool.and_eq_true, Option.some.injEq] at created
      obtain ⟨⟨⟨valid, _⟩, _⟩, rfl⟩ := created
      have initial :
          (ssInitFileRecord ss.storagePath ss.nextAddress
            filename).WellPlaced ss.storagePath :=
        wellPlaced_ssSetRecordPaths ss.storagePath.property
          (length_of_validateFilename valid) _
      have placed :
          (newFileRecord ss now filename owner).WellPlaced
            ss.storagePath :=
        ⟨initial.filepath_eq, initial.metapath_eq, initial.undopath_eq⟩
      refine ⟨rfl, placed, ?_⟩
      rw [placed.paths_eq]
      exact List.append_nil _

/-- The paths a step may write, remove or rename. -/
def writtenPaths (ss : StorageServer) (event : SsEvent) : List CString :=
  match event.command with
  | .createFile msg =>
      match createdRecord ss event.now msg with
      | some newRecord => [newRecord.filepath, newRecord.metapath]
      | none => []
  | .deleteFile msg =>
      match deletedRecord ss msg with
      | some node => node.paths
      | none => []
  | _ => (eventScope ss event).footprint

/-- What a step can do to the list of records. -/
inductive RecordsChange
    (ss : StorageServer)
    (event : SsEvent)
    (after : StorageServer) : Prop
  | kept
      (files_eq : after.files = ss.files)
      (nextAddress_eq : after.nextAddress = ss.nextAddress)
  | stored
      {r : FileRecord}
      (atTarget : r.address = (eventScope ss event).target)
      (allowed : (eventScope ss event).allowed r)
      (files_eq : after.files = storeRecord r ss.files)
      (nextAddress_eq : after.nextAddress = ss.nextAddress)
  | added
      {msg : List CString}
      {newRecord : FileRecord}
      (isCreate : event.command = .createFile msg)
      (created : createdRecord ss event.now msg = some newRecord)
      (files_eq : after.files = newRecord :: ss.files)
      (nextAddress_eq : after.nextAddress = ss.nextAddress + 1)
  | removed
      {msg : List CString}
      {node : FileRecord}
      (isDelete : event.command = .deleteFile msg)
      (deleted : deletedRecord ss msg = some node)
      (files_eq :
        after.files = ss.files.eraseP fun r => r.address = node.address)
      (nextAddress_eq : after.nextAddress = ss.nextAddress)

/-- What a step can do, whatever the event and the disk. -/
structure StepEffect (ss : StorageServer) (event : SsEvent) : Prop where
  storagePath_eq : (ssStep ss event).storagePath = ss.storagePath
  disk_agrees :
    Disk.AgreesOutside (writtenPaths ss event) ss.disk
      (ssStep ss event).disk
  avoids_nul : ss.disk.Avoids 0 → (ssStep ss event).disk.Avoids 0
  records : RecordsChange ss event (ssStep ss event)
  sessions_eq :
    (eventScope ss event).keepsSessions →
      (ssStep ss event).sessions = ss.sessions

theorem stepEffect_of_createFile
    (ss : StorageServer)
    (now : Int)
    (msg : List CString) :
    StepEffect ss ⟨now, .createFile msg⟩ := by
  have shape := ssStep_createFile ss now msg
  cases created : createdRecord ss now msg with
  | none =>
      rw [created] at shape
      obtain ⟨sent, stepped⟩ := shape
      exact
        { storagePath_eq := by rw [stepped]
          disk_agrees := by rw [stepped]; exact .refl _ _
          avoids_nul := by rw [stepped]; exact id
          records := by rw [stepped]; exact .kept rfl rfl
          sessions_eq := fun _ => by rw [stepped] }
  | some newRecord =>
      rw [created] at shape
      obtain ⟨middle, effect, sent, ended⟩ := shape
      have filesKept : middle.files = ss.files :=
        effect.files_eq_of_allows_nothing fun _ => id
      have written :
          writtenPaths ss ⟨now, .createFile msg⟩ =
            (newScope newRecord).footprint := by
        simp [writtenPaths, created, newScope]
      rcases ended with stepped | stepped
      · exact
          { storagePath_eq := by rw [stepped]; exact effect.storagePath_eq
            disk_agrees := by
              rw [stepped, written]
              exact effect.disk_agrees
            avoids_nul := by rw [stepped]; exact effect.avoids_nul
            records := by
              rw [stepped]
              exact .kept filesKept effect.nextAddress_eq
            sessions_eq := fun _ => by
              rw [stepped]
              exact effect.sessions_eq trivial }
      · exact
          { storagePath_eq := by rw [stepped]; exact effect.storagePath_eq
            disk_agrees := by
              rw [stepped, written]
              exact effect.disk_agrees
            avoids_nul := by rw [stepped]; exact effect.avoids_nul
            records := by
              rw [stepped]
              exact .added rfl created (congrArg _ filesKept)
                (congrArg _ effect.nextAddress_eq)
            sessions_eq := fun _ => by
              rw [stepped]
              exact effect.sessions_eq trivial }

theorem stepEffect_of_deleteFile
    (ss : StorageServer)
    (now : Int)
    (msg : List CString) :
    StepEffect ss ⟨now, .deleteFile msg⟩ := by
  have shape := ssStep_deleteFile ss now msg
  cases deleted : deletedRecord ss msg with
  | none =>
      rw [deleted] at shape
      obtain ⟨sent, stepped⟩ := shape
      exact
        { storagePath_eq := by rw [stepped]
          disk_agrees := by rw [stepped]; exact .refl _ _
          avoids_nul := by rw [stepped]; exact id
          records := by rw [stepped]; exact .kept rfl rfl
          sessions_eq := fun _ => by rw [stepped] }
  | some node =>
      rw [deleted] at shape
      obtain ⟨middle, effect, sent, stepped⟩ := shape
      have filesKept : middle.files = ss.files :=
        effect.files_eq_of_allows_nothing fun _ => id
      have written :
          writtenPaths ss ⟨now, .deleteFile msg⟩ =
            (removeScope node).footprint := by
        simp [writtenPaths, deleted, removeScope]
      exact
        { storagePath_eq := by rw [stepped]; exact effect.storagePath_eq
          disk_agrees := by
            rw [stepped, written]
            exact effect.disk_agrees
          avoids_nul := by rw [stepped]; exact effect.avoids_nul
          records := by
            rw [stepped]
            exact .removed rfl deleted (by rw [filesKept])
              effect.nextAddress_eq
          sessions_eq := fun _ => by
            rw [stepped]
            exact effect.sessions_eq trivial }

theorem stepEffect (ss : StorageServer) (event : SsEvent) :
    StepEffect ss event := by
  obtain ⟨now, command⟩ := event
  by_cases changes : command.changesRecords = true
  · cases command with
    | createFile msg =>
        exact stepEffect_of_createFile ss now msg
    | deleteFile msg =>
        exact stepEffect_of_deleteFile ss now msg
    | _ =>
        cases changes
  · have effect :=
      ssStep_effect ss ⟨now, command⟩ (by simpa using changes)
    have written :
        writtenPaths ss ⟨now, command⟩ =
          (eventScope ss ⟨now, command⟩).footprint := by
      cases command with
      | createFile msg =>
          exact absurd rfl changes
      | deleteFile msg =>
          exact absurd rfl changes
      | _ =>
          rfl
    refine
      { storagePath_eq := effect.storagePath_eq
        disk_agrees := written ▸ effect.disk_agrees
        avoids_nul := effect.avoids_nul
        records := ?_
        sessions_eq := effect.sessions_eq }
    rcases effect.files_stored with kept | ⟨r, atTarget, allowed, stored⟩
    · exact .kept kept effect.nextAddress_eq
    · exact .stored atTarget allowed stored effect.nextAddress_eq

/-! ## Records stay in place -/

/-- Every record has its own address and is where its name says. -/
structure RecordsPlaced (ss : StorageServer) : Prop where
  addresses_nodup : (ss.files.map FileRecord.address).Nodup
  addresses_lt : ∀ r ∈ ss.files, r.address < ss.nextAddress
  wellPlaced : ∀ r ∈ ss.files, r.WellPlaced ss.storagePath

theorem recordsPlaced_of_no_files
    {ss : StorageServer}
    (empty : ss.files = []) :
    RecordsPlaced ss := by
  constructor <;> simp [empty]

/-- What a step may leave at its target is a record in its place. -/
theorem RecordsPlaced.of_allowed
    {ss : StorageServer}
    (placed : RecordsPlaced ss)
    {event : SsEvent}
    {r : FileRecord}
    (allowed : (eventScope ss event).allowed r) :
    r.WellPlaced ss.storagePath ∧
      ∃ rec ∈ ss.files,
        event.subject ss = some rec ∧
          rec.address = (eventScope ss event).target := by
  have shape := eventScope_spec ss event
  generalize eventScope ss event = scope at shape allowed ⊢
  cases shape with
  | idle keepsSessions =>
      exact False.elim allowed
  | content keepsSessions present subject =>
      exact ⟨FileRecord.KeepsNames.wellPlaced allowed
          (placed.wellPlaced _ present), _, present, subject, rfl⟩
  | checkpoint present subject built taken freed =>
      exact ⟨FileRecord.KeepsNames.wellPlaced allowed
          (placed.wellPlaced _ present), _, present, subject, rfl⟩
  | rename present subject nameShort taken freed =>
      obtain ⟨now, rfl⟩ := allowed
      exact ⟨(paths_renamed ss.storagePath.property nameShort now _).1, _,
        present, subject, rfl⟩
  | copy present subject taken freed =>
      exact ⟨FileRecord.KeepsNames.wellPlaced allowed
          (placed.wellPlaced _ present), _, present, subject, rfl⟩

theorem mem_files_ssStep
    {ss : StorageServer}
    {event : SsEvent}
    {r : FileRecord}
    (member : r ∈ (ssStep ss event).files) :
    r ∈ ss.files ∨
      r.address = (eventScope ss event).target ∧
        (eventScope ss event).allowed r ∨
      ∃ msg, event.command = .createFile msg ∧
        createdRecord ss event.now msg = some r := by
  cases (stepEffect ss event).records with
  | kept files_eq nextAddress_eq =>
      exact Or.inl (files_eq ▸ member)
  | stored atTarget allowed files_eq nextAddress_eq =>
      rw [files_eq] at member
      rcases mem_storeRecord member with ⟨present, _⟩ | rfl
      · exact Or.inl present
      · exact Or.inr (Or.inl ⟨atTarget, allowed⟩)
  | added isCreate created files_eq nextAddress_eq =>
      rw [files_eq] at member
      rcases List.mem_cons.mp member with rfl | present
      · exact Or.inr (Or.inr ⟨_, isCreate, created⟩)
      · exact Or.inl present
  | removed isDelete deleted files_eq nextAddress_eq =>
      rw [files_eq] at member
      exact Or.inl (List.mem_of_mem_eraseP member)

/-- Every step keeps records in their places. -/
theorem RecordsPlaced.ssStep
    {ss : StorageServer}
    (placed : RecordsPlaced ss)
    (event : SsEvent) :
    RecordsPlaced (DistributedDocs.ssStep ss event) := by
  have effect := stepEffect ss event
  have wellPlaced :
      ∀ r ∈ (DistributedDocs.ssStep ss event).files,
        r.WellPlaced (DistributedDocs.ssStep ss event).storagePath := by
    intro r member
    rw [effect.storagePath_eq]
    rcases mem_files_ssStep member with
      present | ⟨_, allowed⟩ | ⟨msg, _, created⟩
    · exact placed.wellPlaced r present
    · exact (placed.of_allowed allowed).1
    · exact (createdRecord_spec created).2.1
  cases effect.records with
  | kept files_eq nextAddress_eq =>
      refine ⟨?_, ?_, wellPlaced⟩
      · rw [files_eq]
        exact placed.addresses_nodup
      · rw [files_eq, nextAddress_eq]
        exact placed.addresses_lt
  | stored atTarget allowed files_eq nextAddress_eq =>
      refine ⟨?_, ?_, wellPlaced⟩
      · rw [files_eq, addresses_storeRecord]
        exact placed.addresses_nodup
      · intro r member
        rw [files_eq] at member
        rw [nextAddress_eq]
        rcases mem_storeRecord member with ⟨present, _⟩ | rfl
        · exact placed.addresses_lt r present
        · obtain ⟨_, rec, present, _, same⟩ := placed.of_allowed allowed
          rw [atTarget, ← same]
          exact placed.addresses_lt rec present
  | added isCreate created files_eq nextAddress_eq =>
      have atNext := (createdRecord_spec created).1
      refine ⟨?_, ?_, wellPlaced⟩
      · rw [files_eq, List.map_cons, List.nodup_cons]
        refine ⟨?_, placed.addresses_nodup⟩
        intro member
        obtain ⟨q, present, same⟩ := List.mem_map.mp member
        have below := placed.addresses_lt q present
        omega
      · intro r member
        rw [files_eq] at member
        rw [nextAddress_eq]
        rcases List.mem_cons.mp member with rfl | present
        · omega
        · exact Nat.lt_succ_of_lt (placed.addresses_lt r present)
  | removed isDelete deleted files_eq nextAddress_eq =>
      refine ⟨?_, ?_, wellPlaced⟩
      · rw [files_eq]
        exact (List.eraseP_sublist.map _).nodup placed.addresses_nodup
      · intro r member
        rw [files_eq] at member
        rw [nextAddress_eq]
        exact placed.addresses_lt r (List.mem_of_mem_eraseP member)

theorem deletedRecord_subject
    {ss : StorageServer}
    {msg : List CString}
    {node : FileRecord}
    (deleted : deletedRecord ss msg = some node)
    (now : Int) :
    node ∈ ss.files ∧ SsEvent.subject ss ⟨now, .deleteFile msg⟩ = some node := by
  obtain ⟨type, filename, rest, rfl, found, _⟩ := deletedRecord_found deleted
  exact ⟨(ssFindFile_filename found).1, found⟩

/-- A record the event does not act on stays in the list. -/
theorem RecordsPlaced.kept_of_not_subject
    {ss : StorageServer}
    (placed : RecordsPlaced ss)
    {event : SsEvent}
    {r : FileRecord}
    (present : r ∈ ss.files)
    (notSubject : event.subject ss ≠ some r) :
    r ∈ (DistributedDocs.ssStep ss event).files := by
  cases (stepEffect ss event).records with
  | kept files_eq nextAddress_eq =>
      exact files_eq ▸ present
  | stored atTarget allowed files_eq nextAddress_eq =>
      obtain ⟨_, rec, recPresent, subject, same⟩ :=
        placed.of_allowed allowed
      rw [files_eq]
      refine (mem_storeRecord_of_ne ?_).mpr present
      intro sameAddress
      have isRec :=
        eq_of_address placed.addresses_nodup present recPresent
          (sameAddress.trans (atTarget.trans same.symm))
      exact notSubject (isRec ▸ subject)
  | added isCreate created files_eq nextAddress_eq =>
      rw [files_eq]
      exact List.mem_cons_of_mem _ present
  | removed isDelete deleted files_eq nextAddress_eq =>
      obtain ⟨now, command⟩ := event
      obtain rfl := isDelete
      obtain ⟨nodePresent, subject⟩ := deletedRecord_subject deleted now
      rw [files_eq]
      refine (List.mem_eraseP_of_neg ?_).mpr present
      intro sameAddress
      have isNode :=
        eq_of_address placed.addresses_nodup present nodePresent
          (by simpa using sameAddress)
      exact notSubject (isNode ▸ subject)

end DistributedDocs
