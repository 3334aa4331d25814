import DistributedDocs.StorageRecords
import DistributedDocs.StorageUndisturbed

namespace DistributedDocs

/-!
# What an event does on a disk whose operations succeed

One case for each way an event can end, with the records, the disk and the
statistics for the name server in full.  What an undisturbed server preserves
is a case analysis on these.
-/

/-! ## Statistics for the name server -/

/-- The `WRITE_COMPLETE` messages among some messages. -/
def writeCompletes (messages : List Message) : List (List CString) :=
  (messages.filter fun message =>
    message.receiver = .nameServer &&
      message.fields.head? = some (str "WRITE_COMPLETE")).map Message.fields

@[simp] theorem writeCompletes_append (first second : List Message) :
    writeCompletes (first ++ second) =
      writeCompletes first ++ writeCompletes second := by
  simp [writeCompletes]

@[simp] theorem writeCompletes_client (fd : Nat) (fields : List CString) :
    writeCompletes [⟨.client fd, fields⟩] = [] := by
  simp [writeCompletes]

@[simp] theorem writeCompletes_refusal
    (receiver : Peer)
    (refusal : Refusal) :
    writeCompletes [⟨receiver, refusal.fields⟩] = [] := by
  have different : str "ERR" ≠ str "WRITE_COMPLETE" := by decide
  simp [writeCompletes, Refusal.fields, different]

theorem writeCompletes_reply
    {type : CString}
    (other : type ≠ str "WRITE_COMPLETE")
    (arguments : List CString) :
    writeCompletes [⟨.nameServer, type :: arguments⟩] = [] := by
  simp [writeCompletes, other]

@[simp] theorem writeCompletes_writeComplete
    (rec : FileRecord)
    (bytes : RawBytes) :
    writeCompletes [⟨.nameServer, writeComplete rec bytes⟩] =
      [writeComplete rec bytes] := by
  simp [writeCompletes, writeComplete]

/-- The server has these records and this disk, and has sent these statistics. -/
structure EndsWith
    (ss after : StorageServer)
    (files : List FileRecord)
    (disk : Disk CString)
    (statistics : List (List CString)) : Prop where
  files_eq : after.files = files
  disk_eq : after.disk = disk
  writeCompletes_eq :
    writeCompletes after.sent = writeCompletes ss.sent ++ statistics

/-! ## Handlers that change neither records nor disk -/

/-- Records and disk stay as they are, and no statistics are sent. -/
structure Quiet (before after : StorageServer) : Prop where
  files_eq : after.files = before.files
  disk_eq : before.disk.outcomes = [] → after.disk = before.disk
  writeCompletes_eq :
    writeCompletes after.sent = writeCompletes before.sent

namespace Quiet

theorem isEffect : IsEffect Quiet where
  refl _ := ⟨rfl, fun _ => rfl, rfl⟩
  trans earlier later :=
    { files_eq := later.files_eq.trans earlier.files_eq
      disk_eq := fun undisturbed =>
        (later.disk_eq (earlier.disk_eq undisturbed ▸ undisturbed)).trans
          (earlier.disk_eq undisturbed)
      writeCompletes_eq :=
        later.writeCompletes_eq.trans earlier.writeCompletes_eq }

theorem refuse {α : Type} (code : Int) (text : String) :
    StaysWithin Quiet (DistributedDocs.refuse code text : Handler α) :=
  .throw isEffect _

theorem ensure
    (condition : Bool)
    {otherwise : Handler Unit}
    (within : StaysWithin Quiet otherwise) :
    StaysWithin Quiet (DistributedDocs.ensure condition otherwise) :=
  .ite (.pure isEffect _) within

theorem modifySessions (change : List WriteSession → List WriteSession) :
    StaysWithin Quiet (DistributedDocs.modifySessions change) :=
  fun _ => ⟨rfl, fun _ => rfl, rfl⟩

theorem send (fd : Nat) (fields : List CString) :
    StaysWithin Quiet (DistributedDocs.send (.client fd) fields) :=
  fun _ => ⟨rfl, fun _ => rfl, by simp⟩

theorem ssReadFileContent (path : CString) :
    StaysWithin Quiet (DistributedDocs.ssReadFileContent path) :=
  fun ss =>
    { files_eq := rfl
      disk_eq := fun undisturbed => by
        simp [ssReadFileContent_undisturbed undisturbed]
      writeCompletes_eq := rfl }

theorem lockSentence
    (fd : Nat)
    (username indexField : CString)
    (sentenceIndex : Int)
    (rec : FileRecord) :
    StaysWithin Quiet
      (DistributedDocs.lockSentence fd username indexField sentenceIndex
        rec) := by
  unfold DistributedDocs.lockSentence
  refine .bind isEffect (ensure _ (refuse _ _)) fun _ => ?_
  refine .bind isEffect (.get isEffect) fun _ => ?_
  refine .bind isEffect (ensure _ (refuse _ _)) fun _ => ?_
  refine .bind isEffect (ssReadFileContent _) fun fileData => ?_
  split
  · split
    · refine .bind isEffect (modifySessions _) fun _ => ?_
      exact .bind isEffect (send _ _) fun _ => send _ _
    · exact refuse _ _
  · exact refuse _ _

theorem handleClientWriteLock (fd : Nat) (msg : List CString) :
    StaysWithin Quiet (DistributedDocs.handleClientWriteLock fd msg) := by
  unfold DistributedDocs.handleClientWriteLock
  split
  · split
    · refine .bind isEffect (ensure _ (refuse _ _)) fun _ => ?_
      refine .bind isEffect (modifySessions _) fun _ => ?_
      refine .bind isEffect (.get isEffect) fun _ => ?_
      split
      · exact lockSentence _ _ _ _ _
      · exact refuse _ _
    · exact refuse _ _
  · exact refuse _ _

theorem handleClientWriteData (fd : Nat) (msg : List CString) :
    StaysWithin Quiet (DistributedDocs.handleClientWriteData fd msg) := by
  unfold DistributedDocs.handleClientWriteData
  split
  · split
    · refine .bind isEffect (ensure _ (refuse _ _)) fun _ => ?_
      refine .bind isEffect (.get isEffect) fun _ => ?_
      split
      · split
        · exact .bind isEffect (modifySessions _) fun _ => send _ _
        · exact refuse _ _
      · exact refuse _ _
    · exact refuse _ _
  · exact refuse _ _

end Quiet

/-! ## The outcomes -/

/-- The record after a rename to a valid name. -/
def FileRecord.movedTo
    (rec : FileRecord)
    (storagePath newLogical : CString)
    (now : Int) : FileRecord :=
  let newPath := contentPath storagePath newLogical
  (rec.renamed newLogical (physicalNameOf newLogical) newPath
    (snprintf maxPathLength (newPath ++ ssMetaSuffix))
    (snprintf maxPathLength (newPath ++ ssUndoSuffix))).touched now none true

/-- What an event does on a disk whose operations succeed. -/
inductive StepOutcome
    (ss : StorageServer)
    (event : SsEvent)
    (after : StorageServer) : Prop
  | idle
      (noSubject : Accepted ss event = true → event.subject ss = none)
      (ends : EndsWith ss after ss.files ss.disk [])
  | committed
      {fd : Nat}
      {rec : FileRecord}
      {username newContent : CString}
      {bytes : RawBytes}
      (isEtirw : event.command = .etirw fd)
      (accepted : Accepted ss event = true)
      (subject : event.subject ss = some rec)
      (present : ss.disk.bytesAt rec.filepath = some bytes)
      (ends :
        EndsWith ss after
          (storeRecord (rec.rewritten event.now username 1) ss.files)
          (rec.diskAfter ss.disk (rawBytes (cString bytes))
            (rawBytes newContent)
            (metadataText (rec.rewritten event.now username 1)))
          [writeComplete rec (rawBytes newContent)])
  | reverted
      {fd : Nat}
      {msg : List CString}
      {rec : FileRecord}
      {username : CString}
      {before restored : RawBytes}
      (isRevert : event.command = .revert fd msg)
      (accepted : Accepted ss event = true)
      (subject : event.subject ss = some rec)
      (present : ss.disk.bytesAt rec.filepath = some before)
      (ends :
        EndsWith ss after
          (storeRecord (rec.rewritten event.now username 1) ss.files)
          (rec.diskAfter ss.disk before restored
            (metadataText (rec.rewritten event.now username 1)))
          [])
  | undone
      {fd : Nat}
      {msg : List CString}
      {rec : FileRecord}
      {username : CString}
      {snapshot : RawBytes}
      (isUndo : event.command = .undo fd msg)
      (accepted : Accepted ss event = true)
      (subject : event.subject ss = some rec)
      (available : rec.undoAvailable ≠ 0)
      (kept : ss.disk.bytesAt rec.undopath = some snapshot)
      (ends :
        EndsWith ss after
          (storeRecord (rec.rewritten event.now username 0) ss.files)
          ((ss.disk.set rec.filepath
            (some (rawBytes (cString snapshot)))).set rec.metapath
              (some (rawBytes
                (metadataText (rec.rewritten event.now username 0)))))
          [])
  | notCheckpointed
      {fd : Nat}
      {msg : List CString}
      {rec : FileRecord}
      {ckptPath : CString}
      (isCheckpoint : event.command = .checkpoint fd msg)
      (refused : Accepted ss event = false)
      (target : checkpointTarget ss event.now msg = some (rec, ckptPath))
      (ends : EndsWith ss after ss.files (ss.disk.set ckptPath none) [])
  | checkpointed
      {fd : Nat}
      {type username filename tag : CString}
      {rest : List CString}
      {rec : FileRecord}
      {ckptPath : CString}
      {bytes : RawBytes}
      (isCheckpoint :
        event.command =
          .checkpoint fd (type :: username :: filename :: tag :: rest))
      (accepted : Accepted ss event = true)
      (target :
        checkpointTarget ss event.now
            (type :: username :: filename :: tag :: rest) =
          some (rec, ckptPath))
      (present : ss.disk.bytesAt rec.filepath = some bytes)
      (ends :
        EndsWith ss after
          (storeRecord
            (rec.checkpointed event.now username (tagCopy tag) ckptPath)
            ss.files)
          (rec.diskAfterCheckpoint ss.disk bytes ckptPath
            (metadataText
              (rec.checkpointed event.now username (tagCopy tag) ckptPath)))
          [])
  | renamed
      {oldLogical newLogical : CString}
      {rec : FileRecord}
      {bytes : RawBytes}
      (isRename : event.command = .ssRename oldLogical newLogical)
      (accepted : Accepted ss event = true)
      (target : renamedRecord ss oldLogical newLogical = some rec)
      (present : ss.disk.bytesAt rec.filepath = some bytes)
      (ends :
        EndsWith ss after
          (storeRecord (rec.movedTo ss.storagePath newLogical event.now)
            ss.files)
          (movedDisk ss.disk rec.filepath
            (contentPath ss.storagePath newLogical) rec.metapath
            (contentPath ss.storagePath newLogical ++ ssMetaSuffix)
            rec.undopath
            (contentPath ss.storagePath newLogical ++ ssUndoSuffix)
            (rawBytes
              (metadataText
                (rec.movedTo ss.storagePath newLogical event.now))))
          [])
  | notCopied
      {peer : PeerSession}
      {msg : List CString}
      {srcRec : Option FileRecord}
      {destRec : FileRecord}
      (isCopy : event.command = .ssCopy peer msg)
      (refused : Accepted ss event = false)
      (target : copyTarget ss msg = some (srcRec, destRec))
      (ends :
        EndsWith ss after ss.files
          (ss.disk.set (copyTempPath destRec) none) [])
  | copied
      {peer : PeerSession}
      {msg : List CString}
      {srcRec : Option FileRecord}
      {destRec : FileRecord}
      {username : CString}
      {bytes : RawBytes}
      (isCopy : event.command = .ssCopy peer msg)
      (accepted : Accepted ss event = true)
      (target : copyTarget ss msg = some (srcRec, destRec))
      (ends :
        EndsWith ss after
          (storeRecord (destRec.touched event.now (some username) true)
            ss.files)
          (((ss.disk.set (copyTempPath destRec) none).set destRec.filepath
            (some bytes)).set destRec.metapath
              (some (rawBytes
                (metadataText
                  (destRec.touched event.now (some username) true)))))
          [writeComplete destRec bytes])
  | created
      {msg : List CString}
      {newRecord : FileRecord}
      (isCreate : event.command = .createFile msg)
      (accepted : Accepted ss event = true)
      (created : createdRecord ss event.now msg = some newRecord)
      (ends :
        EndsWith ss after (newRecord :: ss.files)
          ((ss.disk.set newRecord.filepath (some [])).set newRecord.metapath
            (some (rawBytes (metadataText newRecord))))
          [])
  | deleted
      {msg : List CString}
      {node : FileRecord}
      (isDelete : event.command = .deleteFile msg)
      (accepted : Accepted ss event = true)
      (deleted : deletedRecord ss msg = some node)
      (ends :
        EndsWith ss after
          (ss.files.eraseP fun r => r.address = node.address)
          (ss.disk.clear node.paths)
          [])

/-! ## From the handler to the step -/

section Handled

variable
  {ss after : StorageServer}
  {event : SsEvent}

theorem refused_of_handler
    {refusal : Refusal}
    (refused : event.handler ss = .error refusal after) :
    Accepted ss event = false ∧
      EndsWith after (ssStep ss event) after.files after.disk [] := by
  simp only [Accepted, ssStep, refused]
  exact ⟨trivial, rfl, rfl, by simp⟩

theorem accepted_of_handler
    (done : event.handler ss = .ok () after) :
    Accepted ss event = true ∧ ssStep ss event = after := by
  simp [Accepted, ssStep, done]

/-- A refusal that leaves no trace. -/
theorem idle_of_refused
    {refusal : Refusal}
    (refused : event.handler ss = .error refusal ss) :
    StepOutcome ss event (ssStep ss event) := by
  obtain ⟨notAccepted, ends⟩ := refused_of_handler refused
  exact .idle (by simp [notAccepted]) ends

theorem idle_of_quiet
    (undisturbed : ss.disk.outcomes = [])
    (noSubject : event.subject ss = none)
    (quiet : StaysWithin Quiet event.handler) :
    StepOutcome ss event (ssStep ss event) := by
  obtain ⟨files_eq, disk_eq, writeCompletes_eq⟩ := quiet ss
  refine .idle (fun _ => noSubject) ?_
  cases handled : event.handler ss with
  | ok value final =>
      rw [handled] at files_eq disk_eq writeCompletes_eq
      simp only [ssStep, handled]
      exact ⟨files_eq, disk_eq undisturbed, by simpa using writeCompletes_eq⟩
  | error refusal final =>
      rw [handled] at files_eq disk_eq writeCompletes_eq
      simp only [ssStep, handled]
      exact ⟨files_eq, disk_eq undisturbed, by simpa using writeCompletes_eq⟩

end Handled

/-! ## One theorem for each kind of command -/

theorem FileRecord.WellPlaced.metapath_ne
    {storagePath : CString}
    {rec : FileRecord}
    (placed : rec.WellPlaced storagePath) :
    rec.filepath ≠ rec.metapath := by
  rw [placed.metapath_eq]
  simpa using (by decide : ssMetaSuffix ≠ [])

theorem FileRecord.WellPlaced.undopath_apart
    {storagePath : CString}
    {rec : FileRecord}
    (placed : rec.WellPlaced storagePath) :
    rec.undopath ≠ rec.filepath ∧ rec.undopath ≠ rec.metapath := by
  have nonempty : ssUndoSuffix ≠ [] := by decide
  rw [placed.undopath_eq, placed.metapath_eq]
  exact ⟨by simpa using nonempty,
    (append_meta_ne_append_undo _ _).symm⟩

/-- A command on an admitted record runs its body, any other one is refused. -/
theorem handler_of_admitted
    {ss : StorageServer}
    {username filename : CString}
    {rec : FileRecord}
    (admitted : admittedRecord ss username filename = some rec)
    (body : FileRecord → Handler Unit) :
    (writableIdleRecord username filename >>= body) ss = body rec ss := by
  have shape := writableIdleRecord_bind username filename body ss
  rw [admitted] at shape
  exact shape

theorem handler_of_not_admitted
    {ss : StorageServer}
    {username filename : CString}
    (notAdmitted : admittedRecord ss username filename = none)
    (body : FileRecord → Handler Unit) :
    ∃ refusal,
      (writableIdleRecord username filename >>= body) ss =
        .error refusal ss := by
  have shape := writableIdleRecord_bind username filename body ss
  rw [notAdmitted] at shape
  exact shape

section Commands

variable
  {ss : StorageServer}
  (placed : RecordsPlaced ss)
  (undisturbed : ss.disk.outcomes = [])
  (now : Int)

include placed undisturbed

theorem outcome_etirw (fd : Nat) :
    StepOutcome ss ⟨now, .etirw fd⟩ (ssStep ss ⟨now, .etirw fd⟩) := by
  cases found : ssFindSession ss.sessions fd with
  | none =>
      have refused :
          ∃ refusal,
            SsEvent.handler ⟨now, .etirw fd⟩ ss = .error refusal ss := by
        simp [SsEvent.handler, handleClientEtirw, found]
      obtain ⟨refusal, refused⟩ := refused
      exact idle_of_refused refused
  | some session =>
      cases reached : recordAt ss.files session.file with
      | none =>
          have done :
              SsEvent.handler ⟨now, .etirw fd⟩ ss = .ok () ss := by
            simp [SsEvent.handler, handleClientEtirw, found, reached]
          obtain ⟨_, stepped⟩ := accepted_of_handler done
          rw [stepped]
          exact .idle (fun _ => by simp [SsEvent.subject, found, reached])
            ⟨rfl, rfl, by simp⟩
      | some rec =>
          have handled :
              SsEvent.handler ⟨now, .etirw fd⟩ ss =
                commitSession now fd session rec ss := by
            simp only [SsEvent.handler, handleClientEtirw, bind_apply,
              get_apply, found, reached]
          have subject :
              SsEvent.subject ss ⟨now, .etirw fd⟩ = some rec := by
            simp [SsEvent.subject, found, reached]
          cases stored : ss.disk.bytesAt rec.filepath with
          | none =>
              obtain ⟨refusal, refused⟩ :=
                commitSession_missing undisturbed now fd session rec stored
              exact idle_of_refused (handled.trans refused)
          | some bytes =>
              cases valid :
                  invalidSentenceBounds (cString bytes)
                    session.sentenceStart session.sentenceEnd with
              | true =>
                  have refused :
                      ∃ refusal,
                        commitSession now fd session rec ss =
                          .error refusal ss := by
                    simp [commitSession, stored, valid,
                      ssReadFileContent_undisturbed undisturbed]
                  obtain ⟨refusal, refused⟩ := refused
                  exact idle_of_refused (handled.trans refused)
              | false =>
                  have apart :=
                    (placed.wellPlaced rec
                      (mem_of_recordAt reached).1).metapath_ne
                  have committed :=
                    commitSession_undisturbed undisturbed now fd session rec
                      apart stored valid
                  obtain ⟨accepted, stepped⟩ :=
                    accepted_of_handler (handled.trans committed)
                  rw [stepped]
                  exact .committed rfl accepted subject stored
                    ⟨rfl, rfl, by
                      simp only [writeCompletes_append,
                        writeCompletes_client, List.append_nil,
                        writeCompletes_writeComplete]⟩

omit placed in
theorem outcome_undo (fd : Nat) (msg : List CString) :
    StepOutcome ss ⟨now, .undo fd msg⟩ (ssStep ss ⟨now, .undo fd msg⟩) := by
  match msg with
  | type :: username :: filename :: rest =>
      cases admitted : admittedRecord ss username filename with
      | none =>
          obtain ⟨refusal, refused⟩ :=
            handler_of_not_admitted admitted (undoRecord now fd username)
          exact idle_of_refused refused
      | some rec =>
          have runs :
              SsEvent.handler
                  ⟨now, .undo fd (type :: username :: filename :: rest)⟩ ss =
                undoRecord now fd username rec ss :=
            handler_of_admitted admitted (undoRecord now fd username)
          by_cases nothing :
              rec.undoAvailable = 0 ∨ ss.disk.bytesAt rec.undopath = none
          · obtain ⟨refusal, refused⟩ :=
              undoRecord_refused now fd username rec nothing
            exact idle_of_refused (runs.trans refused)
          · rw [not_or] at nothing
            obtain ⟨available, isKept⟩ := nothing
            obtain ⟨snapshot, kept⟩ := Option.ne_none_iff_exists'.mp isKept
            have done :=
              undoRecord_undisturbed undisturbed now fd username rec
                available kept
            obtain ⟨accepted, stepped⟩ :=
              accepted_of_handler (runs.trans done)
            have subject :
                SsEvent.subject ss
                    ⟨now, .undo fd (type :: username :: filename :: rest)⟩ =
                  some rec := admittedRecord_found admitted
            rw [stepped]
            exact .undone rfl accepted subject available kept
              ⟨rfl, rfl, by simp⟩
  | [] | [_] | [_, _] =>
      exact idle_of_refused rfl

theorem outcome_revert (fd : Nat) (msg : List CString) :
    StepOutcome ss ⟨now, .revert fd msg⟩
      (ssStep ss ⟨now, .revert fd msg⟩) := by
  match msg with
  | type :: username :: filename :: tag :: rest =>
      by_cases empty : tagCopy tag = []
      · have refused :
            ∃ refusal,
              SsEvent.handler
                  ⟨now, .revert fd
                    (type :: username :: filename :: tag :: rest)⟩ ss =
                .error refusal ss := by
          simp [SsEvent.handler, handleClientRevert, empty]
        obtain ⟨refusal, refused⟩ := refused
        exact idle_of_refused refused
      · have handled :
            SsEvent.handler
                ⟨now, .revert fd
                  (type :: username :: filename :: tag :: rest)⟩ ss =
              (writableIdleRecord username filename >>=
                revertRecord now fd username (tagCopy tag)) ss := by
          simp [SsEvent.handler, handleClientRevert, empty]
        cases admitted : admittedRecord ss username filename with
        | none =>
            obtain ⟨refusal, refused⟩ :=
              handler_of_not_admitted admitted
                (revertRecord now fd username (tagCopy tag))
            exact idle_of_refused (handled.trans refused)
        | some rec =>
            have found := admittedRecord_found admitted
            have runs := handled.trans (handler_of_admitted admitted _)
            rcases revertRecord_undisturbed undisturbed now fd username
                (tagCopy tag) rec
                (placed.wellPlaced rec
                  (ssFindFile_filename found).1).undopath_apart.1.symm with
              ⟨refusal, refused⟩ | ⟨before, restored, text, stored, done⟩
            · exact idle_of_refused (runs.trans refused)
            · obtain ⟨accepted, stepped⟩ :=
                accepted_of_handler (runs.trans done)
              rw [stepped]
              exact .reverted rfl accepted found stored
                ⟨rfl, rfl, by simp⟩
  | [] | [_] | [_, _] | [_, _, _] =>
      exact idle_of_refused rfl

omit placed in
theorem outcome_checkpoint (fd : Nat) (msg : List CString) :
    StepOutcome ss ⟨now, .checkpoint fd msg⟩
      (ssStep ss ⟨now, .checkpoint fd msg⟩) := by
  match msg with
  | type :: username :: filename :: tag :: rest =>
      by_cases empty : tagCopy tag = []
      · have refused :
            ∃ refusal,
              SsEvent.handler
                  ⟨now, .checkpoint fd
                    (type :: username :: filename :: tag :: rest)⟩ ss =
                .error refusal ss := by
          simp [SsEvent.handler, handleClientCheckpoint, empty]
        obtain ⟨refusal, refused⟩ := refused
        exact idle_of_refused refused
      · have handled :
            SsEvent.handler
                ⟨now, .checkpoint fd
                  (type :: username :: filename :: tag :: rest)⟩ ss =
              (writableIdleRecord username filename >>=
                checkpointRecord now fd ss.storagePath username
                  (tagCopy tag)) ss := by
          simp [SsEvent.handler, handleClientCheckpoint, empty]
        cases admitted : admittedRecord ss username filename with
        | none =>
            obtain ⟨refusal, refused⟩ :=
              handler_of_not_admitted admitted
                (checkpointRecord now fd ss.storagePath username
                  (tagCopy tag))
            exact idle_of_refused (handled.trans refused)
        | some rec =>
            have runs := handled.trans (handler_of_admitted admitted _)
            cases built :
                snapshotPath ss.storagePath now (tagCopy tag) rec with
            | none =>
                obtain ⟨refusal, refused⟩ :=
                  checkpointRecord_refused now fd username built ss
                exact idle_of_refused (runs.trans refused)
            | some ckptPath =>
                have target :
                    checkpointTarget ss now
                        (type :: username :: filename :: tag :: rest) =
                      some (rec, ckptPath) := by
                  simp [checkpointTarget, empty, admitted, built]
                cases stored : ss.disk.bytesAt rec.filepath with
                | none =>
                    obtain ⟨refusal, refused⟩ :=
                      checkpointRecord_missing undisturbed now fd username
                        built stored
                    obtain ⟨notAccepted, ends⟩ :=
                      refused_of_handler (runs.trans refused)
                    exact .notCheckpointed rfl notAccepted target
                      ⟨ends.files_eq, ends.disk_eq, ends.writeCompletes_eq⟩
                | some bytes =>
                    have done :=
                      checkpointRecord_undisturbed undisturbed now fd
                        username (tagCopy_short tag) built stored
                    obtain ⟨accepted, stepped⟩ :=
                      accepted_of_handler (runs.trans done)
                    rw [stepped]
                    exact .checkpointed rfl accepted target stored
                      ⟨rfl, rfl, by simp⟩
  | [] | [_] | [_, _] | [_, _, _] =>
      exact idle_of_refused rfl

end Commands

section Transfers

variable
  {ss : StorageServer}
  (placed : RecordsPlaced ss)
  (undisturbed : ss.disk.outcomes = [])
  (now : Int)

include placed undisturbed

theorem outcome_ssRename (oldLogical newLogical : CString) :
    StepOutcome ss ⟨now, .ssRename oldLogical newLogical⟩
      (ssStep ss ⟨now, .ssRename oldLogical newLogical⟩) := by
  have unfolded :
      SsEvent.handler ⟨now, .ssRename oldLogical newLogical⟩ ss =
        nsRename now (ssRenameMessage oldLogical newLogical) ss := rfl
  cases valid :
      validateFilename oldLogical && validateFilename newLogical with
  | false =>
      have refused :
          ∃ refusal,
            SsEvent.handler ⟨now, .ssRename oldLogical newLogical⟩ ss =
              .error refusal ss := by
        simp only [unfolded, nsRename, ssRenameMessage, bind_apply,
          ensure_apply, valid, Bool.false_eq_true, ↓reduceIte, refuse_apply]
        exact ⟨_, rfl⟩
      obtain ⟨refusal, refused⟩ := refused
      exact idle_of_refused refused
  | true =>
      have oldShort : oldLogical.length < maxFilenameLength :=
        length_of_validateFilename (Bool.and_eq_true_iff.mp valid).1
      have asked := @ssHandleRename_apply now oldLogical newLogical oldShort ss
      have handled :
          SsEvent.handler ⟨now, .ssRename oldLogical newLogical⟩ ss =
            (ssHandleRename now oldLogical newLogical
                (physicalNameOf oldLogical) (physicalNameOf newLogical) >>=
              fun done => do
                ensure done (refuse errInternalError "Rename failed")
                send .nameServer [str "OK"]) ss := by
        rw [unfolded]
        simp only [nsRename, ssRenameMessage]
        rw [bind_apply, ensure_apply, valid]
        rfl
      cases found : ssFindFile ss.files oldLogical with
      | none =>
          rw [found] at asked
          have refused :
              ∃ refusal,
                SsEvent.handler ⟨now, .ssRename oldLogical newLogical⟩ ss =
                  .error refusal ss := by
            rw [handled, bind_apply, asked]
            exact ⟨_, rfl⟩
          obtain ⟨refusal, refused⟩ := refused
          exact idle_of_refused refused
      | some rec =>
          rw [found] at asked
          obtain ⟨present, named⟩ := ssFindFile_filename found
          have recPlaced := placed.wellPlaced rec present
          have atContent :
              contentPath ss.storagePath oldLogical = rec.filepath := by
            rw [recPlaced.filepath_eq, named]
          simp only [atContent] at asked
          cases stored : ss.disk.bytesAt rec.filepath with
          | none =>
              have missing :=
                renameRecord_missing undisturbed now newLogical
                  (physicalNameOf newLogical)
                  (contentPath ss.storagePath newLogical) rec stored
              have refused :
                  ∃ refusal,
                    SsEvent.handler ⟨now, .ssRename oldLogical newLogical⟩
                        ss =
                      .error refusal ss := by
                rw [handled, bind_apply, asked, missing]
                exact ⟨_, rfl⟩
              obtain ⟨refusal, refused⟩ := refused
              exact idle_of_refused refused
          | some bytes =>
              have short := ss.storagePath.property
              obtain ⟨metaShort, undoShort⟩ := length_suffix_le
              have moved :=
                renameRecord_undisturbed undisturbed now newLogical
                  (physicalNameOf newLogical) rec.filepath
                  (contentPath ss.storagePath newLogical) rec stored
              have target :
                  renamedRecord ss oldLogical newLogical = some rec := by
                simp only [renamedRecord, valid, ↓reduceIte, found]
              have disk_eq :
                  movedDisk ss.disk rec.filepath
                      (contentPath ss.storagePath newLogical)
                      (snprintf maxPathLength (rec.filepath ++ ssMetaSuffix))
                      (snprintf maxPathLength
                        (contentPath ss.storagePath newLogical ++
                          ssMetaSuffix))
                      (snprintf maxPathLength (rec.filepath ++ ssUndoSuffix))
                      (snprintf maxPathLength
                        (contentPath ss.storagePath newLogical ++
                          ssUndoSuffix)) =
                    movedDisk ss.disk rec.filepath
                      (contentPath ss.storagePath newLogical) rec.metapath
                      (contentPath ss.storagePath newLogical ++ ssMetaSuffix)
                      rec.undopath
                      (contentPath ss.storagePath newLogical ++
                        ssUndoSuffix) := by
                simp only [snprintf_contentPath short _ metaShort,
                  snprintf_contentPath short _ undoShort, ← atContent]
                simp only [atContent, ← recPlaced.metapath_eq,
                  ← recPlaced.undopath_eq]
              simp only [disk_eq] at moved
              have done :
                  SsEvent.handler ⟨now, .ssRename oldLogical newLogical⟩
                      ss =
                    .ok ()
                      { ss with
                        files :=
                          storeRecord
                            (rec.movedTo ss.storagePath newLogical now)
                            ss.files
                        disk :=
                          movedDisk ss.disk rec.filepath
                            (contentPath ss.storagePath newLogical)
                            rec.metapath
                            (contentPath ss.storagePath newLogical ++
                              ssMetaSuffix)
                            rec.undopath
                            (contentPath ss.storagePath newLogical ++
                              ssUndoSuffix)
                            (rawBytes (metadataText
                              (rec.movedTo ss.storagePath newLogical now)))
                        sent :=
                          ss.sent ++ [⟨.nameServer, [str "OK"]⟩] } := by
                rw [handled, bind_apply, asked, moved]
                rfl
              obtain ⟨accepted, stepped⟩ := accepted_of_handler done
              rw [stepped]
              exact .renamed rfl accepted target stored
                ⟨rfl, rfl, (writeCompletes_append _ _).trans
                  (congrArg _ (writeCompletes_reply (by decide) _))⟩

theorem outcome_ssCopy (peer : PeerSession) (msg : List CString) :
    StepOutcome ss ⟨now, .ssCopy peer msg⟩
      (ssStep ss ⟨now, .ssCopy peer msg⟩) := by
  match msg with
  | type :: destFilename :: srcIp :: srcPortField :: srcFilename ::
      username :: rest =>
      generalize messageEq :
        type :: destFilename :: srcIp :: srcPortField :: srcFilename ::
          username :: rest = msg
      by_cases valid :
          validCopyRequest destFilename srcIp srcPortField srcFilename
            username = true
      · have handled :
            SsEvent.handler ⟨now, .ssCopy peer msg⟩ ss =
              (idleCopyRecords (srcIp = str "LOCAL") srcFilename
                  destFilename >>= fun records =>
                copyInto now peer username records.1 records.2) ss := by
          simp only [validCopyRequest, Bool.and_eq_true] at valid
          obtain ⟨⟨⟨destValid, srcValid⟩, userValid⟩, reachable⟩ := valid
          simp only [SsEvent.handler, handleSsCopy, ← messageEq, bind_apply,
            ensure_apply, destValid, srcValid, userValid, reachable,
            Bool.and_self, ↓reduceIte]
        have target_eq :
            copyTarget ss msg =
              admittedCopy ss (srcIp = str "LOCAL") srcFilename
                destFilename := by
          simp only [copyTarget, ← messageEq, valid, ↓reduceIte]
        have shape :=
          idleCopyRecords_apply (srcIp = str "LOCAL") srcFilename
            destFilename ss
        cases admitted :
            admittedCopy ss (srcIp = str "LOCAL") srcFilename
              destFilename with
        | none =>
            rw [admitted] at shape
            obtain ⟨refusal, refused⟩ := shape
            rw [bind_apply, refused] at handled
            exact idle_of_refused handled
        | some records =>
            obtain ⟨srcRec, destRec⟩ := records
            rw [admitted] at shape target_eq
            simp only at shape
            rw [bind_apply, shape] at handled
            have present := (@copyTarget_found ss peer now _ _ _ target_eq).1
            rcases copyInto_undisturbed undisturbed now peer username srcRec
                destRec (placed.wellPlaced destRec present).metapath_ne with
              ⟨refusal, refused⟩ | ⟨bytes, done⟩
            · obtain ⟨notAccepted, ends⟩ :=
                refused_of_handler (handled.trans refused)
              exact .notCopied rfl notAccepted target_eq
                ⟨ends.files_eq, ends.disk_eq, ends.writeCompletes_eq⟩
            · obtain ⟨accepted, stepped⟩ :=
                accepted_of_handler (handled.trans done)
              rw [stepped]
              exact .copied rfl accepted target_eq
                ⟨rfl, rfl, by
                  simp only [writeCompletes_append,
                    writeCompletes_writeComplete]
                  rw [writeCompletes_reply (by decide), List.append_nil]⟩
      · have refused :
            ∃ refusal,
              SsEvent.handler ⟨now, .ssCopy peer msg⟩ ss =
                .error refusal ss := by
          simp only [validCopyRequest, Bool.and_eq_true, not_and] at valid
          by_cases named :
              (validateFilename destFilename &&
                validateFilename srcFilename &&
                  validateUsername username) = true
          · have unreachable := valid (by simpa using named)
            simp [SsEvent.handler, handleSsCopy, ← messageEq, named,
              unreachable]
          · simp [SsEvent.handler, handleSsCopy, ← messageEq, named]
        obtain ⟨refusal, refused⟩ := refused
        exact idle_of_refused refused
  | [] | [_] | [_, _] | [_, _, _] | [_, _, _, _] | [_, _, _, _, _] =>
      exact idle_of_refused rfl

omit placed in
theorem outcome_createFile (msg : List CString) :
    StepOutcome ss ⟨now, .createFile msg⟩
      (ssStep ss ⟨now, .createFile msg⟩) := by
  match msg with
  | type :: filename :: owner :: rest =>
      have created_eq :
          createdRecord ss now (type :: filename :: owner :: rest) =
            if validateFilename filename && validateUsername owner &&
                (ssFindFile ss.files filename).isNone then
              some (newFileRecord ss now filename owner)
            else
              none := rfl
      have unfolded :
          SsEvent.handler
              ⟨now, .createFile (type :: filename :: owner :: rest)⟩ ss =
            nsCreateFile now (type :: filename :: owner :: rest) ss := rfl
      by_cases valid :
          (validateFilename filename && validateUsername owner) = true
      · by_cases known : (ssFindFile ss.files filename).isSome = true
        · have refused :
              ∃ refusal,
                SsEvent.handler
                    ⟨now, .createFile (type :: filename :: owner :: rest)⟩
                    ss =
                  .error refusal ss := by
            simp [unfolded, nsCreateFile, ssCreateFile, valid, known]
          obtain ⟨refusal, refused⟩ := refused
          exact idle_of_refused refused
        · have absent : (ssFindFile ss.files filename).isNone = true := by
            simpa [Option.isSome_iff_ne_none] using known
          rw [valid, absent] at created_eq
          have done :
              SsEvent.handler
                  ⟨now, .createFile (type :: filename :: owner :: rest)⟩
                  ss =
                .ok ()
                  { ss with
                    files := newFileRecord ss now filename owner :: ss.files
                    disk :=
                      (ss.disk.set
                        (newFileRecord ss now filename owner).filepath
                          (some [])).set
                        (newFileRecord ss now filename owner).metapath
                          (some (rawBytes (metadataText
                            (newFileRecord ss now filename owner))))
                    nextAddress := ss.nextAddress + 1
                    sent :=
                      ss.sent ++
                        [⟨.nameServer, [str "OK_CREATE", filename]⟩] } := by
            simp only [unfolded, nsCreateFile, ssCreateFile, bind_apply,
              ensure_apply, valid, ↓reduceIte, get_apply, known,
              Bool.false_eq_true, addRecord_undisturbed undisturbed,
              send_apply]
          obtain ⟨accepted, stepped⟩ := accepted_of_handler done
          rw [stepped]
          exact .created rfl accepted created_eq
            ⟨rfl, rfl, (writeCompletes_append _ _).trans
              (congrArg _ (writeCompletes_reply (by decide) _))⟩
      · have refused :
            ∃ refusal,
              SsEvent.handler
                  ⟨now, .createFile (type :: filename :: owner :: rest)⟩
                  ss =
                .error refusal ss := by
          simp [unfolded, nsCreateFile, valid]
        obtain ⟨refusal, refused⟩ := refused
        exact idle_of_refused refused
  | [] | [_] | [_, _] =>
      exact idle_of_refused rfl

omit placed in
theorem outcome_deleteFile (msg : List CString) :
    StepOutcome ss ⟨now, .deleteFile msg⟩
      (ssStep ss ⟨now, .deleteFile msg⟩) := by
  cases deleted : deletedRecord ss msg with
  | none =>
      match msg with
      | type :: filename :: rest =>
          have refused :
              ∃ refusal,
                SsEvent.handler
                    ⟨now, .deleteFile (type :: filename :: rest)⟩ ss =
                  .error refusal ss := by
            simp only [deletedRecord] at deleted
            by_cases valid : validateFilename filename = true
            · cases found : ssFindFile ss.files filename with
              | none =>
                  simp [SsEvent.handler, nsDeleteFile, ssDeleteFile, valid,
                    found]
              | some node =>
                  simp only [valid, ↓reduceIte, found,
                    ite_eq_left_iff, reduceCtorEq, imp_false,
                    Bool.not_eq_true, Bool.not_eq_false] at deleted
                  simp [SsEvent.handler, nsDeleteFile, ssDeleteFile, valid,
                    found, deleted]
            · simp [SsEvent.handler, nsDeleteFile, valid]
          obtain ⟨refusal, refused⟩ := refused
          exact idle_of_refused refused
      | [] | [_] =>
          exact idle_of_refused rfl
  | some node =>
      obtain ⟨type, filename, rest, rfl, found, idle⟩ :=
        deletedRecord_found deleted
      have valid : validateFilename filename = true := by
        simp only [deletedRecord, Option.ite_none_right_eq_some] at deleted
        exact deleted.1
      have done :
          SsEvent.handler ⟨now, .deleteFile (type :: filename :: rest)⟩ ss =
            .ok ()
              { ss with
                files := ss.files.eraseP fun r => r.address = node.address
                disk := ss.disk.clear node.paths
                sent :=
                  ss.sent ++
                    [⟨.nameServer, [str "OK_DELETE", filename]⟩] } := by
        simp only [SsEvent.handler, nsDeleteFile, ssDeleteFile, bind_apply,
          ensure_apply, valid, ↓reduceIte, get_apply, found, idle,
          Bool.false_eq_true, removeRecord_undisturbed undisturbed,
          pure_apply, send_apply]
      obtain ⟨accepted, stepped⟩ := accepted_of_handler done
      rw [stepped]
      exact .deleted rfl accepted deleted
        ⟨rfl, rfl, (writeCompletes_append _ _).trans
          (congrArg _ (writeCompletes_reply (by decide) _))⟩

/-- What every event does on a disk whose operations succeed. -/
theorem stepOutcome (event : SsEvent) :
    StepOutcome ss event (ssStep ss event) := by
  obtain ⟨now, command⟩ := event
  cases command with
  | writeLock fd msg =>
      exact idle_of_quiet undisturbed rfl (Quiet.handleClientWriteLock fd msg)
  | writeData fd msg =>
      exact idle_of_quiet undisturbed rfl (Quiet.handleClientWriteData fd msg)
  | disconnected fd =>
      exact idle_of_quiet undisturbed rfl (Quiet.modifySessions _)
  | etirw fd =>
      exact outcome_etirw placed undisturbed now fd
  | undo fd msg =>
      exact outcome_undo undisturbed now fd msg
  | checkpoint fd msg =>
      exact outcome_checkpoint undisturbed now fd msg
  | revert fd msg =>
      exact outcome_revert placed undisturbed now fd msg
  | createFile msg =>
      exact outcome_createFile undisturbed now msg
  | deleteFile msg =>
      exact outcome_deleteFile undisturbed now msg
  | ssRename oldLogical newLogical =>
      exact outcome_ssRename placed undisturbed now oldLogical newLogical
  | ssCopy peer msg =>
      exact outcome_ssCopy placed undisturbed now peer msg

end Transfers

end DistributedDocs
