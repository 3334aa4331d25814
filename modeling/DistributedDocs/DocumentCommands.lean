import DistributedDocs.GuardedRun
import DistributedDocs.StoredDocuments

namespace DistributedDocs

/-!
# What accepted commands do to the documents

Every accepted command does to the documents what its name says, as long as it
takes free paths only and moves no document onto its own sidecars.  So what the
server holds is what the accepted commands, one after the other, make of an
empty store.
-/

/-! ## Which command has been accepted -/

/-- What a command on an existing document does to it. -/
def SsCommand.toDocument
    (ss : StorageServer)
    (filename : CString) : SsCommand → Option DocumentCommand
  | .etirw fd =>
      (ssFindSession ss.sessions fd).map fun session =>
        .edit filename
          ⟨session.sentenceStart, session.sentenceEnd,
            session.sentenceWorking⟩
  | .undo _ _ =>
      some (.undo filename)
  | .checkpoint _ msg =>
      some (.checkpoint filename (tagCopy (msg.getD 3 [])))
  | .revert _ msg =>
      some (.revert filename (tagCopy (msg.getD 3 [])))
  | .deleteFile _ =>
      some (.remove filename)
  | .ssRename _ newLogical =>
      some (.move filename newLogical)
  | .ssCopy peer msg =>
      if msg.getD 2 [] = str "LOCAL" then
        some (.copy (msg.getD 4 []) filename)
      else
        match peer with
        | .answers messages =>
            some (.replace filename (rawBytes (textBeforeEnd messages)))
        | _ => none
  | _ => none

/-- What an event that is accepted does to the documents, if anything. -/
def documentCommand
    (ss : StorageServer)
    (event : SsEvent) : Option DocumentCommand :=
  if Accepted ss event = true then
    match event.command with
    | .createFile msg =>
        (createdRecord ss event.now msg).map fun newRecord =>
          .create newRecord.filename
    | command =>
        (event.subject ss).bind fun rec => command.toDocument ss rec.filename
  else
    none

/-- The event takes free paths, and moves no document onto its own sidecars. -/
structure KeepsDocuments (ss : StorageServer) (event : SsEvent) : Prop where
  free : TakesFreePaths ss event
  clear :
    ∀ moved ∈ movedFile ss event,
      moved.2 ∉ [moved.1.metapath, moved.1.undopath]

instance KeepsDocuments.decidable (ss : StorageServer) (event : SsEvent) :
    Decidable (KeepsDocuments ss event) :=
  decidable_of_iff
    (TakesFreePaths ss event ∧
      ∀ moved ∈ movedFile ss event,
        moved.2 ∉ [moved.1.metapath, moved.1.undopath])
    ⟨fun ⟨free, clear⟩ => ⟨free, clear⟩, fun ⟨free, clear⟩ => ⟨free, clear⟩⟩

/-- The documents after the event are those its command makes of them. -/
def StepsTo
    (ss : StorageServer)
    (event : SsEvent)
    (store : Documents) : Prop :=
  ∃ next,
    applyAll (StoreCommand.apply documentRules)
        (documentCommand ss event).toList store = some next ∧
      MakesUp (ssStep ss event) next

theorem stepsTo_of_none
    {ss : StorageServer}
    {event : SsEvent}
    {store : Documents}
    (nothing : documentCommand ss event = none)
    (makesUp : MakesUp (ssStep ss event) store) :
    StepsTo ss event store :=
  ⟨store, by rw [nothing]; rfl, makesUp⟩

theorem stepsTo_of_effect
    {ss : StorageServer}
    {event : SsEvent}
    {store : Documents}
    {command : DocumentCommand}
    {updates : List (CString × Option Document)}
    (does : documentCommand ss event = some command)
    (effect : command.effect documentRules store = some updates)
    (makesUp : MakesUp (ssStep ss event) (writeAt updates store)) :
    StepsTo ss event store := by
  refine ⟨_, ?_, makesUp⟩
  rw [does, Option.toList_some, applyAll, StoreCommand.apply, applyEffect,
    effect]
  rfl

/-! ## What the handlers write -/

section Written

variable
  {ss : StorageServer}
  (undisturbed : ss.disk.outcomes = [])
  {now : Int}

include undisturbed

/-- A commit writes the sentence between the bounds of its session. -/
theorem content_of_commit
    {fd : Nat}
    {session : WriteSession}
    {rec : FileRecord}
    {bytes : RawBytes}
    (apart : rec.filepath ≠ rec.metapath)
    (found : ssFindSession ss.sessions fd = some session)
    (reached : recordAt ss.files session.file = some rec)
    (present : ss.disk.bytesAt rec.filepath = some bytes)
    (accepted : Accepted ss ⟨now, .etirw fd⟩ = true) :
    (ssStep ss ⟨now, .etirw fd⟩).disk.bytesAt rec.filepath =
      some
        (rawBytes
          (splice (cString bytes) session.sentenceStart session.sentenceEnd
            session.sentenceWorking)) := by
  have handled :
      SsEvent.handler ⟨now, .etirw fd⟩ ss =
        commitSession now fd session rec ss := by
    simp only [SsEvent.handler, handleClientEtirw, bind_apply, get_apply,
      found, reached]
  cases valid :
      invalidSentenceBounds (cString bytes) session.sentenceStart
        session.sentenceEnd with
  | true =>
      have refused :
          ∃ refusal,
            commitSession now fd session rec ss = .error refusal ss := by
        simp [commitSession, present, valid,
          ssReadFileContent_undisturbed undisturbed]
      obtain ⟨refusal, refused⟩ := refused
      rw [(refused_of_handler (handled.trans refused)).1] at accepted
      cases accepted
  | false =>
      have committed :=
        commitSession_undisturbed undisturbed now fd session rec apart present
          valid
      rw [(accepted_of_handler (handled.trans committed)).2]
      simp only [FileRecord.diskAfter]
      rw [Disk.bytesAt_set_of_ne apart, Disk.bytesAt_set_same]

/-- An accepted creation adds a record. -/
theorem files_ne_of_created
    {msg : List CString}
    (accepted : Accepted ss ⟨now, .createFile msg⟩ = true) :
    (ssStep ss ⟨now, .createFile msg⟩).files ≠ ss.files := by
  have notAccepted :
      ∀ refusal,
        SsEvent.handler ⟨now, .createFile msg⟩ ss ≠ .error refusal ss := by
    intro refusal refused
    rw [(refused_of_handler refused).1] at accepted
    cases accepted
  match msg with
  | type :: filename :: owner :: rest =>
      by_cases valid :
          (validateFilename filename && validateUsername owner) = true
      · by_cases known : (ssFindFile ss.files filename).isSome = true
        · exact absurd
            (by simp [SsEvent.handler, nsCreateFile, ssCreateFile, valid,
              known])
            (notAccepted ⟨errFileExists, str "File already exists"⟩)
        · have done :
              ∃ after,
                SsEvent.handler
                    ⟨now, .createFile (type :: filename :: owner :: rest)⟩
                    ss =
                  .ok () after ∧
                  after.files =
                    newFileRecord ss now filename owner :: ss.files := by
            simp only [SsEvent.handler, nsCreateFile, ssCreateFile,
              bind_apply, ensure_apply, valid, ↓reduceIte, get_apply, known,
              Bool.false_eq_true, addRecord_undisturbed undisturbed,
              send_apply]
            exact ⟨_, rfl, rfl⟩
          obtain ⟨after, handled, files⟩ := done
          rw [(accepted_of_handler handled).2, files]
          exact List.cons_ne_self _ _
      · exact absurd (by simp [SsEvent.handler, nsCreateFile, valid])
          (notAccepted
            ⟨errInvalidRequest, str "Invalid filename or owner"⟩)
  | [] | [_] | [_, _] =>
      exact absurd rfl
        (notAccepted ⟨errInvalidRequest, str "CREATE_FILE missing fields"⟩)

omit undisturbed in
/-- A revert gives back the snapshot with its tag. -/
theorem snapshot_of_restored
    {ss : StorageServer}
    {fd : Nat}
    {msg : List CString}
    {rec : FileRecord}
    {restored : RawBytes}
    (nodup : rec.paths.Nodup)
    (isGiven : restoredContent ss (.revert fd msg) = some (rec, restored)) :
    tagCopy (msg.getD 3 []) ≠ [] ∧
      ∃ ckpt, ssFindCheckpoint rec (tagCopy (msg.getD 3 [])) = some ckpt ∧
        ss.disk.bytesAt ckpt.filepath = some restored := by
  unfold restoredContent at isGiven
  split at isGiven
  · next isUndo => cases isUndo
  · next isRevert =>
    obtain ⟨rfl, rfl⟩ := SsCommand.revert.inj isRevert
    simp only [Option.bind_eq_some_iff, Option.ite_none_left_eq_some,
      Option.map_eq_some_iff, Prod.mk.injEq] at isGiven
    obtain ⟨r, _, nonempty, ckpt, found, bytes, stored, _, _, rfl,
      isBytes⟩ := isGiven
    have isListed : ckpt ∈ r.checkpoints := by
      rw [ssFindCheckpoint, if_neg nonempty] at found
      exact List.mem_of_find?_eq_some found
    obtain ⟨notContent, _, notUndo⟩ :=
      (FileRecord.own_apart nodup).2 ckpt isListed
    rw [if_neg notContent, if_neg notUndo] at isBytes
    exact ⟨nonempty, ckpt, found, isBytes ▸ stored⟩
  · cases isGiven

omit undisturbed in
/-- The source of a copy that is let through is a record of the server. -/
theorem mem_of_copyTarget
    {ss : StorageServer}
    {msg : List CString}
    {srcRec destRec : FileRecord}
    (target : copyTarget ss msg = some (some srcRec, destRec)) :
    srcRec ∈ ss.files := by
  unfold copyTarget at target
  split at target
  · simp only [Option.ite_none_right_eq_some] at target
    have source := (admittedCopy_spec target.2).2.2
    split at source
    · obtain ⟨rec, isSource, found, _⟩ := source
      rw [Option.some.inj isSource]
      exact (ssFindFile_filename found).1
    · cases source
  · cases target

omit undisturbed in
/-- A copy that is let through brings what the source or the peer has. -/
theorem content_of_copy
    (placed : RecordsPlaced ss)
    {peer : PeerSession}
    {msg : List CString}
    {srcRec : Option FileRecord}
    {destRec : FileRecord}
    (target : copyTarget ss msg = some (srcRec, destRec))
    (apart :
      ∀ rec, srcRec = some rec → rec.filepath ≠ copyTempPath destRec)
    (accepted : Accepted ss ⟨now, .ssCopy peer msg⟩ = true) :
    ∃ bytes,
      CopySource ss peer srcRec bytes ∧
        (ssStep ss ⟨now, .ssCopy peer msg⟩).disk.bytesAt destRec.filepath =
          some bytes ∧
        if msg.getD 2 [] = str "LOCAL" then
          ∃ rec, srcRec = some rec ∧
            ssFindFile ss.files (msg.getD 4 []) = some rec
        else srcRec = none := by
  have present := (@copyTarget_found ss peer now _ _ _ target).1
  match msg with
  | type :: destFilename :: srcIp :: srcPortField :: srcFilename ::
      username :: rest =>
      simp only [copyTarget, Option.ite_none_right_eq_some] at target
      obtain ⟨valid, admitted⟩ := target
      have shape :=
        idleCopyRecords_apply (srcIp = str "LOCAL") srcFilename destFilename
          ss
      rw [admitted] at shape
      simp only at shape
      have handled :
          SsEvent.handler
              ⟨now, .ssCopy peer
                (type :: destFilename :: srcIp :: srcPortField ::
                  srcFilename :: username :: rest)⟩ ss =
            copyInto now peer username srcRec destRec ss := by
        simp only [validCopyRequest, Bool.and_eq_true] at valid
        obtain ⟨⟨⟨destValid, srcValid⟩, userValid⟩, reachable⟩ := valid
        simp only [SsEvent.handler, handleSsCopy, bind_apply, ensure_apply,
          destValid, srcValid, userValid, reachable, Bool.and_self,
          ↓reduceIte, shape]
      have outcome :=
        copyInto_outcome (placed.wellPlaced destRec present) now peer username
          apart
      obtain ⟨_, _, source⟩ := admittedCopy_spec admitted
      cases ended : copyInto now peer username srcRec destRec ss with
      | ok value after =>
          rw [ended] at outcome
          obtain ⟨bytes, isSource, stored⟩ := outcome
          refine ⟨bytes, isSource, ?_, ?_⟩
          · rw [(accepted_of_handler (handled.trans ended)).2]
            exact stored
          · show
              if srcIp = str "LOCAL" then
                ∃ rec, srcRec = some rec ∧
                  ssFindFile ss.files srcFilename = some rec
              else srcRec = none
            by_cases isLocal : srcIp = str "LOCAL"
            · simp only [isLocal, decide_true, ↓reduceIte] at source
              obtain ⟨rec, isRec, found, _⟩ := source
              rw [if_pos isLocal]
              exact ⟨rec, isRec, found⟩
            · rw [if_neg isLocal]
              simpa [isLocal] using source
      | error refusal after =>
          rw [(refused_of_handler (handled.trans ended)).1] at accepted
          cases accepted

end Written

/-! ## One event -/

section Step

variable
  {ss : StorageServer}
  {store : Documents}
  (represents : Represents ss store)
  {event : SsEvent}
  (keeps : KeepsDocuments ss event)

include represents keeps

/-- The files of all other records stay. -/
theorem Represents.others_stay
    {rec : FileRecord}
    (subject : event.subject ss = some rec) :
    ∀ q ∈ ss.files, q.address ≠ rec.address →
      ∀ path ∈ q.paths,
        (ssStep ss event).disk.bytesAt path = ss.disk.bytesAt path := by
  intro q present other
  have untouched :=
    (ssStep_apart represents.toPathsApart keeps.free).2 q present
      fun isSubject =>
        other (congrArg _ (Option.some.inj (isSubject.symm.trans subject)))
  exact untouched.bytesAt_eq

/-- An event without a record to work on leaves all files in use. -/
theorem Represents.all_stay
    (subject : event.subject ss = none) :
    ∀ q ∈ ss.files, ∀ path ∈ q.paths,
      (ssStep ss event).disk.bytesAt path = ss.disk.bytesAt path := by
  intro q present
  have untouched :=
    (ssStep_apart represents.toPathsApart keeps.free).2 q present
      (by simp [subject])
  exact untouched.bytesAt_eq

theorem Represents.stepsTo_committed
    {fd : Nat}
    {rec : FileRecord}
    {username newContent : CString}
    {bytes : RawBytes}
    {notices : List (List CString)}
    (isEtirw : event.command = .etirw fd)
    (accepted : Accepted ss event = true)
    (subject : event.subject ss = some rec)
    (present : ss.disk.bytesAt rec.filepath = some bytes)
    (ends :
      EndsWith ss (ssStep ss event)
        (storeRecord (rec.rewritten event.now username 1) ss.files)
        (rec.diskAfter ss.disk (rawBytes (cString bytes))
          (rawBytes newContent)
          (metadataText (rec.rewritten event.now username 1)))
        notices) :
    StepsTo ss event store := by
  obtain ⟨now, command⟩ := event
  obtain rfl : command = .etirw fd := isEtirw
  have listed := mem_of_subject subject
  obtain ⟨doc, isDoc, carries⟩ := represents.stored rec listed
  obtain rfl : bytes = doc.content :=
    Option.some.inj (present.symm.trans carries.content)
  obtain ⟨session, found, reached⟩ := Option.bind_eq_some_iff.mp subject
  have apart := (represents.wellPlaced rec listed).metapath_ne
  have written :=
    content_of_commit represents.undisturbed apart found reached present
      accepted
  have onDisk := ends.disk_eq
  have content :
      (rec.diskAfter ss.disk (rawBytes (cString doc.content))
          (rawBytes newContent)
          (metadataText (rec.rewritten now username 1))).bytesAt
          rec.filepath = some (rawBytes newContent) := by
    rw [FileRecord.diskAfter, Disk.bytesAt_set_of_ne apart,
      Disk.bytesAt_set_same]
  rw [onDisk, content] at written
  have isContent := Option.some.inj written
  have does :
      documentCommand ss ⟨now, .etirw fd⟩ =
        some
          (.edit rec.filename
            ⟨session.sentenceStart, session.sentenceEnd,
              session.sentenceWorking⟩) := by
    simp only [documentCommand, accepted, ↓reduceIte, subject,
      Option.bind_some, SsCommand.toDocument, found, Option.map_some]
  refine stepsTo_of_effect does
    (by rw [StoreCommand.effect, isDoc, Option.map_some]) ?_
  refine represents.of_changed listed ends.files_eq rfl rfl
    (represents.others_stay keeps subject) ?_
  rw [onDisk, rawBytes_cString (represents.avoids_nul _ _ present), isContent]
  exact carries.rewritten (represents.paths_nodup rec listed) now username _ _

theorem Represents.stepsTo_reverted
    {fd : Nat}
    {msg : List CString}
    {rec : FileRecord}
    {username : CString}
    {before restored : RawBytes}
    {notices : List (List CString)}
    (isRevert : event.command = .revert fd msg)
    (accepted : Accepted ss event = true)
    (subject : event.subject ss = some rec)
    (present : ss.disk.bytesAt rec.filepath = some before)
    (ends :
      EndsWith ss (ssStep ss event)
        (storeRecord (rec.rewritten event.now username 1) ss.files)
        (rec.diskAfter ss.disk before restored
          (metadataText (rec.rewritten event.now username 1)))
        notices) :
    StepsTo ss event store := by
  obtain ⟨now, command⟩ := event
  obtain rfl : command = .revert fd msg := isRevert
  have listed := mem_of_subject subject
  have nodup := represents.paths_nodup rec listed
  obtain ⟨doc, isDoc, carries⟩ := represents.stored rec listed
  obtain rfl : before = doc.content :=
    Option.some.inj (present.symm.trans carries.content)
  obtain ⟨given, isGiven, written⟩ :=
    restored_of_revert represents.toRecordsPlaced represents.undisturbed
      accepted subject
  have onDisk := ends.disk_eq
  have apart := (represents.wellPlaced rec listed).metapath_ne
  have content :
      (rec.diskAfter ss.disk doc.content restored
          (metadataText (rec.rewritten now username 1))).bytesAt
          rec.filepath = some restored := by
    rw [FileRecord.diskAfter, Disk.bytesAt_set_of_ne apart,
      Disk.bytesAt_set_same]
  rw [onDisk, content] at written
  obtain rfl := Option.some.inj written
  -- what is given back is the snapshot with the tag
  have snapshot :
      doc.snapshotAt (tagCopy (msg.getD 3 [])) = some restored := by
    obtain ⟨nonempty, ckpt, found, stored⟩ :=
      snapshot_of_restored nodup isGiven
    rw [carries.snapshotAt_eq nonempty, found, Option.bind_some, stored]
  have does :
      documentCommand ss ⟨now, .revert fd msg⟩ =
        some (.revert rec.filename (tagCopy (msg.getD 3 []))) := by
    simp only [documentCommand, accepted, ↓reduceIte, subject,
      Option.bind_some, SsCommand.toDocument]
  refine stepsTo_of_effect does
    (by rw [StoreCommand.effect, isDoc, Option.bind_some,
      VersionedDocument.reverted, snapshot, Option.map_some,
      Option.map_some]) ?_
  refine represents.of_changed listed ends.files_eq rfl rfl
    (represents.others_stay keeps subject) ?_
  rw [onDisk]
  exact carries.rewritten nodup now username _ _

theorem Represents.stepsTo_undone
    {fd : Nat}
    {msg : List CString}
    {rec : FileRecord}
    {username : CString}
    {snapshot : RawBytes}
    {notices : List (List CString)}
    (isUndo : event.command = .undo fd msg)
    (accepted : Accepted ss event = true)
    (subject : event.subject ss = some rec)
    (available : rec.undoAvailable ≠ 0)
    (kept : ss.disk.bytesAt rec.undopath = some snapshot)
    (ends :
      EndsWith ss (ssStep ss event)
        (storeRecord (rec.rewritten event.now username 0) ss.files)
        ((ss.disk.set rec.filepath
          (some (rawBytes (cString snapshot)))).set rec.metapath
            (some (rawBytes
              (metadataText (rec.rewritten event.now username 0)))))
        notices) :
    StepsTo ss event store := by
  obtain ⟨now, command⟩ := event
  obtain rfl : command = .undo fd msg := isUndo
  have listed := mem_of_subject subject
  obtain ⟨doc, isDoc, carries⟩ := represents.stored rec listed
  obtain ⟨text, isText, stored⟩ := carries.previous_some available
  obtain rfl : snapshot = text := Option.some.inj (kept.symm.trans stored)
  have does :
      documentCommand ss ⟨now, .undo fd msg⟩ = some (.undo rec.filename) := by
    simp only [documentCommand, accepted, ↓reduceIte, subject,
      Option.bind_some, SsCommand.toDocument]
  refine stepsTo_of_effect does
    (by rw [StoreCommand.effect, isDoc, Option.bind_some,
      VersionedDocument.undone, isText, Option.map_some,
      Option.map_some]) ?_
  refine represents.of_changed listed ends.files_eq rfl rfl
    (represents.others_stay keeps subject) ?_
  rw [ends.disk_eq, rawBytes_cString (represents.avoids_nul _ _ kept)]
  exact carries.undone (represents.paths_nodup rec listed) now username _ _

theorem Represents.stepsTo_checkpointed
    {fd : Nat}
    {type username filename tag : CString}
    {rest : List CString}
    {rec : FileRecord}
    {ckptPath : CString}
    {bytes : RawBytes}
    {notices : List (List CString)}
    (isCheckpoint :
      event.command =
        .checkpoint fd (type :: username :: filename :: tag :: rest))
    (accepted : Accepted ss event = true)
    (target :
      checkpointTarget ss event.now
          (type :: username :: filename :: tag :: rest) =
        some (rec, ckptPath))
    (present : ss.disk.bytesAt rec.filepath = some bytes)
    (ends :
      EndsWith ss (ssStep ss event)
        (storeRecord
          (rec.checkpointed event.now username (tagCopy tag) ckptPath)
          ss.files)
        (rec.diskAfterCheckpoint ss.disk bytes ckptPath
          (metadataText
            (rec.checkpointed event.now username (tagCopy tag) ckptPath)))
        notices) :
    StepsTo ss event store := by
  obtain ⟨now, command⟩ := event
  obtain rfl :
      command =
        .checkpoint fd (type :: username :: filename :: tag :: rest) :=
    isCheckpoint
  obtain ⟨listed, subject, _⟩ :=
    @checkpointTarget_found ss fd now _ _ _ target
  obtain ⟨nonempty, _, unknown, _⟩ := checkpointTarget_spec target
  obtain ⟨doc, isDoc, carries⟩ := represents.stored rec listed
  obtain rfl : bytes = doc.content :=
    Option.some.inj (present.symm.trans carries.content)
  have free : ckptPath ∉ rec.paths := by
    intro own
    have freed :=
      keeps.free ckptPath
        (by simp only [takenPaths, target, List.mem_singleton])
        (List.mem_flatMap.mpr ⟨rec, listed, own⟩)
    cases freed
  have notTaken :
      (doc.snapshotAt (tagCopy tag)).isSome = false := by
    rw [carries.snapshotAt_eq nonempty, unknown, Option.bind_none,
      Option.isSome_none]
  have does :
      documentCommand ss
          ⟨now, .checkpoint fd
            (type :: username :: filename :: tag :: rest)⟩ =
        some (.checkpoint rec.filename (tagCopy tag)) := by
    simp only [documentCommand, accepted, ↓reduceIte, subject,
      Option.bind_some, SsCommand.toDocument, List.getD_cons_succ,
      List.getD_cons_zero]
  refine stepsTo_of_effect does
    (by rw [StoreCommand.effect, isDoc, Option.bind_some,
      VersionedDocument.checkpointed, notTaken, if_neg Bool.false_ne_true,
      Option.map_some]) ?_
  refine represents.of_changed listed ends.files_eq rfl rfl
    (represents.others_stay keeps subject) ?_
  rw [ends.disk_eq]
  exact carries.checkpointed (represents.paths_nodup rec listed) now username
    (tagCopy tag) (tagCopy_short tag) _ free

theorem Represents.stepsTo_renamed
    {oldLogical newLogical : CString}
    {rec : FileRecord}
    {description : RawBytes}
    {notices : List (List CString)}
    (isRename : event.command = .ssRename oldLogical newLogical)
    (accepted : Accepted ss event = true)
    (target : renamedRecord ss oldLogical newLogical = some rec)
    (ends :
      EndsWith ss (ssStep ss event)
        (storeRecord (rec.movedTo ss.storagePath newLogical event.now)
          ss.files)
        (movedDisk ss.disk rec.filepath
          (contentPath ss.storagePath newLogical) rec.metapath
          (contentPath ss.storagePath newLogical ++ ssMetaSuffix)
          rec.undopath
          (contentPath ss.storagePath newLogical ++ ssUndoSuffix)
          description)
        notices) :
    StepsTo ss event store := by
  obtain ⟨now, command⟩ := event
  obtain rfl : command = .ssRename oldLogical newLogical := isRename
  have isTarget := target
  simp only [renamedRecord, Option.ite_none_right_eq_some,
    Bool.and_eq_true] at isTarget
  obtain ⟨⟨_, newValid⟩, subject⟩ := isTarget
  obtain ⟨listed, isOld⟩ := ssFindFile_filename subject
  have placed := represents.wellPlaced rec listed
  have nodup := represents.paths_nodup rec listed
  have nameShort := length_of_validateFilename newValid
  obtain ⟨doc, isDoc, carries⟩ := represents.stored rec listed
  have named :
      (rec.movedTo ss.storagePath newLogical now).filename = newLogical :=
    safeStrcpy_of_short nameShort
  -- a path of the new name is a path of the old one, or in no use
  have newPaths :
      ∀ path ∈ namedPaths ss.storagePath newLogical,
        path ∈ pathsInUse ss.files →
          path ∈ namedPaths ss.storagePath rec.filename := by
    intro path isNew inUse
    rw [isOld]
    exact keeps.free path
      (by simpa only [takenPaths, target] using isNew) inUse
  have notSnapshot :
      ∀ path ∈ namedPaths ss.storagePath newLogical,
        path ∉ rec.checkpoints.map CheckpointRecord.filepath := by
    intro path isNew snapshot
    have own : path ∈ rec.paths := List.mem_append_right _ snapshot
    have isNamed :=
      newPaths path isNew (List.mem_flatMap.mpr ⟨rec, listed, own⟩)
    rw [placed.paths_eq, List.nodup_append] at nodup
    exact nodup.2.2 path isNamed path snapshot rfl
  have notOther :
      ∀ q ∈ ss.files, q.address ≠ rec.address → q.filename ≠ newLogical := by
    rintro q present other rfl
    have isContent :
        q.filepath ∈ namedPaths ss.storagePath q.filename := by
      rw [(represents.wellPlaced q present).filepath_eq]
      exact List.mem_cons_self
    have own : q.filepath ∈ q.paths := by
      simp [FileRecord.paths]
    have isNamed :=
      newPaths q.filepath isContent
        (List.mem_flatMap.mpr ⟨q, present, own⟩)
    refine represents.paths_disjoint q present rec listed other own ?_
    rw [placed.paths_eq]
    exact List.mem_append_left _ isNamed
  have does :
      documentCommand ss ⟨now, .ssRename oldLogical newLogical⟩ =
        some (.move rec.filename newLogical) := by
    have isSubject :
        SsEvent.subject ss ⟨now, .ssRename oldLogical newLogical⟩ =
          some rec := subject
    simp only [documentCommand, accepted, ↓reduceIte, isSubject,
      Option.bind_some, SsCommand.toDocument]
  have notTaken :
      ¬(newLogical ≠ rec.filename ∧ (store newLogical).isSome = true) := by
    rintro ⟨different, taken⟩
    obtain ⟨q, present, rfl⟩ := represents.named newLogical taken
    refine notOther q present (fun same => different ?_) rfl
    rw [eq_of_address represents.addresses_nodup present listed same]
  refine stepsTo_of_effect does
    (by rw [StoreCommand.effect, if_neg notTaken, isDoc,
      Option.map_some]) ?_
  have made :=
    represents.of_stored listed ends.files_eq rfl
      (fun q present other =>
        ⟨named.symm ▸ notOther q present other,
          represents.others_stay keeps subject q present other⟩)
      (by
        rw [ends.disk_eq]
        exact carries.moved nodup now ss.storagePath.property nameShort placed
          represents.undisturbed
          (keeps.clear
            (rec, contentPath ss.storagePath newLogical)
            (by simp [movedFile, subject]))
          notSnapshot description)
  rwa [named] at made

theorem Represents.stepsTo_copied
    {peer : PeerSession}
    {msg : List CString}
    {srcRec : Option FileRecord}
    {destRec : FileRecord}
    {username : CString}
    {bytes : RawBytes}
    {description : RawBytes}
    {notices : List (List CString)}
    (isCopy : event.command = .ssCopy peer msg)
    (accepted : Accepted ss event = true)
    (target : copyTarget ss msg = some (srcRec, destRec))
    (ends :
      EndsWith ss (ssStep ss event)
        (storeRecord (destRec.touched event.now (some username) true)
          ss.files)
        (((ss.disk.set (copyTempPath destRec) none).set destRec.filepath
          (some bytes)).set destRec.metapath (some description))
        notices) :
    StepsTo ss event store := by
  obtain ⟨now, command⟩ := event
  obtain rfl : command = .ssCopy peer msg := isCopy
  obtain ⟨listed, subject⟩ := @copyTarget_found ss peer now _ _ _ target
  have apart := (represents.wellPlaced destRec listed).metapath_ne
  obtain ⟨doc, isDoc, carries⟩ := represents.stored destRec listed
  have scratchFree : copyTempPath destRec ∉ pathsInUse ss.files := by
    intro inUse
    have freed :=
      keeps.free (copyTempPath destRec)
        (by simp only [takenPaths, target, List.mem_singleton]) inUse
    cases freed
  have scratchUnused : ∀ rec ∈ ss.files, copyTempPath destRec ∉ rec.paths :=
    fun rec present own =>
      scratchFree (List.mem_flatMap.mpr ⟨rec, present, own⟩)
  obtain ⟨brought, source, written, isLocal⟩ :=
    content_of_copy represents.toRecordsPlaced target
      (by
        rintro rec rfl same
        exact scratchUnused rec (mem_of_copyTarget target)
          (same ▸ by simp [FileRecord.paths]))
      accepted
  have content :
      (((ss.disk.set (copyTempPath destRec) none).set destRec.filepath
          (some bytes)).set destRec.metapath (some description)).bytesAt
        destRec.filepath = some bytes := by
    rw [Disk.bytesAt_set_of_ne apart, Disk.bytesAt_set_same]
  rw [ends.disk_eq, content] at written
  obtain rfl := Option.some.inj written
  have made :
      MakesUp (ssStep ss ⟨now, .ssCopy peer msg⟩)
        (writeAt [(destRec.filename, some (doc.replaced bytes))] store) := by
    refine represents.of_changed listed ends.files_eq rfl rfl
      (represents.others_stay keeps subject) ?_
    rw [ends.disk_eq]
    exact carries.replaced (represents.paths_nodup destRec listed) now
      username bytes description (scratchUnused destRec listed)
  by_cases fromHere : msg.getD 2 [] = str "LOCAL"
  · rw [if_pos fromHere] at isLocal
    obtain ⟨srcRec, rfl, found⟩ := isLocal
    obtain ⟨srcListed, srcNamed⟩ := ssFindFile_filename found
    obtain ⟨original, isOriginal, carriesToo⟩ :=
      represents.stored srcRec srcListed
    obtain rfl : bytes = original.content :=
      Option.some.inj (source.symm.trans carriesToo.content)
    have does :
        documentCommand ss ⟨now, .ssCopy peer msg⟩ =
          some (.copy srcRec.filename destRec.filename) := by
      simp only [documentCommand, accepted, ↓reduceIte, subject,
        Option.bind_some, SsCommand.toDocument, if_pos fromHere, srcNamed]
    exact stepsTo_of_effect does
      (by rw [StoreCommand.effect, isOriginal, Option.bind_some, isDoc,
        Option.map_some]) made
  · rw [if_neg fromHere] at isLocal
    subst isLocal
    obtain ⟨messages, rfl, rfl⟩ := source
    have does :
        documentCommand ss ⟨now, .ssCopy (.answers messages) msg⟩ =
          some
            (.replace destRec.filename
              (rawBytes (textBeforeEnd messages))) := by
      simp only [documentCommand, accepted, ↓reduceIte, subject,
        Option.bind_some, SsCommand.toDocument, if_neg fromHere]
    exact stepsTo_of_effect does
      (by rw [StoreCommand.effect, isDoc, Option.map_some]) made

theorem Represents.stepsTo_created
    {msg : List CString}
    {newRecord : FileRecord}
    {description : RawBytes}
    {notices : List (List CString)}
    (isCreate : event.command = .createFile msg)
    (accepted : Accepted ss event = true)
    (created : createdRecord ss event.now msg = some newRecord)
    (ends :
      EndsWith ss (ssStep ss event) (newRecord :: ss.files)
        ((ss.disk.set newRecord.filepath (some [])).set newRecord.metapath
          (some description))
        notices) :
    StepsTo ss event store := by
  obtain ⟨now, command⟩ := event
  obtain rfl : command = .createFile msg := isCreate
  have stays := represents.all_stay keeps rfl
  obtain ⟨_, placed, paths⟩ := createdRecord_spec created
  have unnamed : ∀ rec ∈ ss.files, rec.filename ≠ newRecord.filename := by
    intro rec present same
    have isContent :
        rec.filepath ∈ namedPaths ss.storagePath newRecord.filename := by
      rw [(represents.wellPlaced rec present).filepath_eq, same]
      exact List.mem_cons_self
    have freed :=
      keeps.free rec.filepath
        (by simpa only [takenPaths, created] using isContent)
        (List.mem_flatMap.mpr
          ⟨rec, present, by simp [FileRecord.paths]⟩)
    cases freed
  have notYet : store newRecord.filename = none := by
    cases isDoc : store newRecord.filename with
    | none => rfl
    | some doc =>
        obtain ⟨rec, present, same⟩ :=
          represents.named newRecord.filename
            (by rw [isDoc, Option.isSome_some])
        exact absurd same (unnamed rec present)
  have does :
      documentCommand ss ⟨now, .createFile msg⟩ =
        some (.create newRecord.filename) := by
    simp only [documentCommand, accepted, ↓reduceIte, created,
      Option.map_some]
  have noCheckpoints : newRecord.checkpoints = [] := by
    have own := placed.paths_eq
    rw [paths] at own
    simpa using own
  have carries :
      newRecord.Carries (ssStep ss ⟨now, .createFile msg⟩).disk
        ⟨[], none, []⟩ :=
    { content := by
        rw [ends.disk_eq, Disk.bytesAt_set_of_ne placed.metapath_ne,
          Disk.bytesAt_set_same]
      previous_none := fun _ => rfl
      previous_some := fun available =>
        absurd (undoAvailable_createdRecord created) available
      snapshots := by
        rw [noCheckpoints]
        exact .nil }
  refine stepsTo_of_effect does
    (by rw [StoreCommand.effect, notYet, Option.isSome_none,
      if_neg Bool.false_ne_true]) ?_
  constructor
  · rw [ends.files_eq]
    intro rec present
    rcases List.mem_cons.mp present with rfl | old
    · exact ⟨_, by simp; rfl, carries⟩
    · obtain ⟨doc, isDoc, carriesToo⟩ := represents.stored rec old
      refine ⟨doc, ?_, carriesToo.of_agrees (stays rec old)⟩
      rw [writeAt_of_not_mem (by simpa using unnamed rec old), isDoc]
  · rw [ends.files_eq]
    intro name isNamed
    by_cases isNew : name = newRecord.filename
    · exact ⟨newRecord, List.mem_cons_self, isNew.symm⟩
    · rw [writeAt_of_not_mem (by simpa using isNew)] at isNamed
      obtain ⟨rec, old, same⟩ := represents.named name isNamed
      exact ⟨rec, List.mem_cons_of_mem _ old, same⟩

theorem Represents.stepsTo_deleted
    {msg : List CString}
    {node : FileRecord}
    {disk : Disk CString}
    {notices : List (List CString)}
    (isDelete : event.command = .deleteFile msg)
    (accepted : Accepted ss event = true)
    (deleted : deletedRecord ss msg = some node)
    (ends :
      EndsWith ss (ssStep ss event)
        (ss.files.eraseP fun r => r.address = node.address) disk notices) :
    StepsTo ss event store := by
  obtain ⟨now, command⟩ := event
  obtain rfl : command = .deleteFile msg := isDelete
  obtain ⟨listed, subject⟩ := deletedRecord_subject deleted now
  have others := represents.others_stay keeps subject
  obtain ⟨doc, isDoc, _⟩ := represents.stored node listed
  have does :
      documentCommand ss ⟨now, .deleteFile msg⟩ =
        some (.remove node.filename) := by
    simp only [documentCommand, accepted, ↓reduceIte, subject,
      Option.bind_some, SsCommand.toDocument]
  refine stepsTo_of_effect does
    (by rw [StoreCommand.effect, isDoc, Option.map_some]) ?_
  constructor
  · rw [ends.files_eq]
    intro rec stays
    have old := List.mem_of_mem_eraseP stays
    have other :=
      address_ne_of_mem_eraseP represents.addresses_nodup listed stays
    have notRemoved : rec.filename ≠ node.filename := fun same =>
      other (congrArg _ (represents.eq_of_filename old listed same))
    obtain ⟨kept, isKept, carries⟩ := represents.stored rec old
    refine ⟨kept, ?_, carries.of_agrees (others rec old other)⟩
    rw [writeAt_of_not_mem (by simpa using notRemoved), isKept]
  · rw [ends.files_eq]
    intro name isNamed
    by_cases isRemoved : name = node.filename
    · rw [isRemoved, writeAt_cons, writeAt_nil, Function.update_self]
        at isNamed
      cases isNamed
    · rw [writeAt_of_not_mem (by simpa using isRemoved)] at isNamed
      obtain ⟨rec, old, rfl⟩ := represents.named name isNamed
      refine ⟨rec, (List.mem_eraseP_of_neg fun same => isRemoved ?_).mpr old,
        rfl⟩
      rw [eq_of_address represents.addresses_nodup old listed
        (by simpa using same)]

/-- Every event does to the documents what its command says. -/
theorem Represents.stepsTo : StepsTo ss event store := by
  have refusedIdle :
      Accepted ss event = false → documentCommand ss event = none := by
    intro refused
    simp only [documentCommand, refused, if_neg Bool.false_ne_true]
  have cleared :
      ∀ {path : CString} {notices},
        path ∉ pathsInUse ss.files →
          EndsWith ss (ssStep ss event) ss.files (ss.disk.set path none)
            notices →
            MakesUp (ssStep ss event) store := by
    intro path notices unused ends
    refine represents.of_same ends.files_eq fun other inUse => ?_
    rw [ends.disk_eq, Disk.bytesAt_set_of_ne]
    rintro rfl
    exact unused inUse
  cases stepOutcome represents.toRecordsPlaced represents.undisturbed event with
  | idle noSubject ends =>
      refine stepsTo_of_none ?_
        (represents.of_same ends.files_eq fun _ _ => by rw [ends.disk_eq])
      cases accepted : Accepted ss event with
      | false => exact refusedIdle accepted
      | true =>
          obtain ⟨now, command⟩ := event
          cases command with
          | createFile msg =>
              exact absurd ends.files_eq
                (files_ne_of_created represents.undisturbed accepted)
          | _ =>
              simp only [documentCommand, accepted, ↓reduceIte,
                noSubject accepted, Option.bind_none]
  | committed isEtirw accepted subject present ends =>
      exact represents.stepsTo_committed keeps isEtirw accepted subject present
        ends
  | reverted isRevert accepted subject present ends =>
      exact represents.stepsTo_reverted keeps isRevert accepted subject present
        ends
  | undone isUndo accepted subject available kept ends =>
      exact represents.stepsTo_undone keeps isUndo accepted subject available
        kept ends
  | notCheckpointed isCheckpoint refused target ends =>
      refine stepsTo_of_none (refusedIdle refused) (cleared ?_ ends)
      intro inUse
      have freed :=
        keeps.free _
          (by simp only [takenPaths, isCheckpoint, target,
            List.mem_singleton]) inUse
      simp [freedPaths, isCheckpoint] at freed
  | checkpointed isCheckpoint accepted target present ends =>
      exact represents.stepsTo_checkpointed keeps isCheckpoint accepted target
        present ends
  | renamed isRename accepted target present ends =>
      exact represents.stepsTo_renamed keeps isRename accepted target ends
  | notCopied isCopy refused target ends =>
      refine stepsTo_of_none (refusedIdle refused) (cleared ?_ ends)
      intro inUse
      have freed :=
        keeps.free _
          (by simp only [takenPaths, isCopy, target, List.mem_singleton])
          inUse
      simp [freedPaths, isCopy] at freed
  | copied isCopy accepted target ends =>
      exact represents.stepsTo_copied keeps isCopy accepted target ends
  | created isCreate accepted created ends =>
      exact represents.stepsTo_created keeps isCreate accepted created ends
  | deleted isDelete accepted deleted ends =>
      exact represents.stepsTo_deleted keeps isDelete accepted deleted ends

/-- The server goes on representing documents. -/
theorem Represents.ssStep :
    ∃ next,
      applyAll (StoreCommand.apply documentRules)
          (documentCommand ss event).toList store = some next ∧
        Represents (DistributedDocs.ssStep ss event) next := by
  obtain ⟨next, applied, makesUp⟩ := represents.stepsTo keeps
  have effect := stepEffect ss event
  exact ⟨next, applied,
    { toPathsApart := (ssStep_apart represents.toPathsApart keeps.free).1
      toMakesUp := makesUp
      undisturbed := effect.disk_agrees.undisturbed represents.undisturbed
      avoids_nul := effect.avoids_nul represents.avoids_nul }⟩

end Step

end DistributedDocs
