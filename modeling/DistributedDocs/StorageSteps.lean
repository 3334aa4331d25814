import DistributedDocs.StorageEffects

namespace DistributedDocs

/-!
# The steps of the storage server

For each command, which record it is admitted to work on, and the scope it
stays within then.  A command that is not admitted leaves records and disk as
they are.
-/

/-! ## Admission -/

/-- The record `writableIdleRecord` returns. -/
def admittedRecord
    (ss : StorageServer)
    (username filename : CString) : Option FileRecord :=
  match ssFindFile ss.files filename with
  | some rec =>
      if ssCheckWriteAccess rec username &&
          !ssFileHasActiveWriters ss.sessions rec.address then
        some rec
      else
        none
  | none => none

theorem writableIdleRecord_apply
    (username filename : CString)
    (ss : StorageServer) :
    match admittedRecord ss username filename with
    | some rec => writableIdleRecord username filename ss = .ok rec ss
    | none =>
        ∃ refusal,
          writableIdleRecord username filename ss = .error refusal ss := by
  unfold admittedRecord writableIdleRecord
  cases found : ssFindFile ss.files filename with
  | none =>
      simp [found]
  | some rec =>
      cases access : ssCheckWriteAccess rec username with
      | false =>
          simp [found, access]
      | true =>
          cases busy : ssFileHasActiveWriters ss.sessions rec.address <;>
            simp [found, access, busy]

/-- A handler's body runs on the record it is admitted to, or not at all. -/
theorem writableIdleRecord_bind
    (username filename : CString)
    (body : FileRecord → Handler Unit)
    (ss : StorageServer) :
    match admittedRecord ss username filename with
    | some rec =>
        (writableIdleRecord username filename >>= body) ss = body rec ss
    | none =>
        ∃ refusal,
          (writableIdleRecord username filename >>= body) ss =
            .error refusal ss := by
  have shape := writableIdleRecord_apply username filename ss
  cases admitted : admittedRecord ss username filename with
  | none =>
      rw [admitted] at shape
      obtain ⟨refusal, stopped⟩ := shape
      exact ⟨refusal, by simp [stopped]⟩
  | some rec =>
      rw [admitted] at shape
      simp [shape]

/-- The records `SS_COPY` is admitted to: the source, if local, and the target. -/
def admittedCopy
    (ss : StorageServer)
    (sourceIsLocal : Bool)
    (srcFilename destFilename : CString) :
    Option (Option FileRecord × FileRecord) :=
  let srcRec :=
    if sourceIsLocal then ssFindFile ss.files srcFilename else none
  match ssFindFile ss.files destFilename with
  | some destRec =>
      if !(sourceIsLocal && srcRec.isNone) &&
          !ssFileHasActiveWriters ss.sessions destRec.address &&
          !srcRec.any fun rec =>
            ssFileHasActiveWriters ss.sessions rec.address then
        some (srcRec, destRec)
      else
        none
  | none => none

theorem idleCopyRecords_apply
    (sourceIsLocal : Bool)
    (srcFilename destFilename : CString)
    (ss : StorageServer) :
    match admittedCopy ss sourceIsLocal srcFilename destFilename with
    | some records =>
        idleCopyRecords sourceIsLocal srcFilename destFilename ss =
          .ok records ss
    | none =>
        ∃ refusal,
          idleCopyRecords sourceIsLocal srcFilename destFilename ss =
            .error refusal ss := by
  unfold admittedCopy idleCopyRecords
  cases found : ssFindFile ss.files destFilename with
  | none =>
      simp [found]
  | some destRec =>
      simp only [bind_apply, get_apply, found, ensure_apply]
      generalize (if sourceIsLocal then ssFindFile ss.files srcFilename
        else none) = srcRec
      by_cases missing : (sourceIsLocal && srcRec.isNone) = true
      · simp [missing]
      · by_cases destBusy :
            ssFileHasActiveWriters ss.sessions destRec.address = true
        · simp [missing, destBusy]
        · by_cases srcBusy :
              (srcRec.any fun rec =>
                ssFileHasActiveWriters ss.sessions rec.address) = true
          · simp [missing, destBusy, srcBusy]
          · simp [missing, destBusy, srcBusy]

theorem ssFindFile_filename
    {files : List FileRecord}
    {filename : CString}
    {rec : FileRecord}
    (found : ssFindFile files filename = some rec) :
    rec ∈ files ∧ rec.filename = filename :=
  ⟨List.mem_of_find?_eq_some found,
    (strncmpEq_iff rec.filename_short).mp (by
      simpa using List.find?_some found)⟩

theorem mem_of_recordAt
    {files : List FileRecord}
    {address : Nat}
    {rec : FileRecord}
    (found : recordAt files address = some rec) :
    rec ∈ files ∧ rec.address = address :=
  ⟨List.mem_of_find?_eq_some found, by simpa using List.find?_some found⟩

theorem flattenLogicalPath_eq
    {filename : CString}
    (short : filename.length < maxFilenameLength) :
    flattenLogicalPath filename maxFilenameLength =
      some (physicalNameOf filename) := by
  simp [physicalNameOf, flattenLogicalPath, Nat.not_le.mpr short]

/-- A rename asked for by the name server reaches the record's own files. -/
theorem ssHandleRename_apply
    (now : Int)
    {oldLogical newLogical : CString}
    (oldShort : oldLogical.length < maxFilenameLength)
    (ss : StorageServer) :
    ssHandleRename now oldLogical newLogical (physicalNameOf oldLogical)
        (physicalNameOf newLogical) ss =
      match ssFindFile ss.files oldLogical with
      | some rec =>
          renameRecord now newLogical (physicalNameOf newLogical)
            (contentPath ss.storagePath oldLogical)
            (contentPath ss.storagePath newLogical) rec ss
      | none => .ok false ss := by
  unfold ssHandleRename
  cases found : ssFindFile ss.files oldLogical with
  | none =>
      simp [found]
  | some rec =>
      obtain ⟨_, named⟩ := ssFindFile_filename found
      have same :
          strncmpEq (physicalNameOf oldLogical) (physicalNameOf oldLogical)
            maxFilenameLength = true := by
        simp [strncmpEq]
      simp [found, named, flattenLogicalPath_eq oldShort, same,
        buildPath_physicalNameOf ss.storagePath.property]

/-! ## The scope of a command -/

/-- The scope of `ETIRW`. -/
def etirwScope (ss : StorageServer) (fd : Nat) : Scope :=
  match ssFindSession ss.sessions fd with
  | some session =>
      match recordAt ss.files session.file with
      | some rec => contentScope rec False
      | none => noScope True
  | none => noScope True

/-- The scope of a command on the content of an admitted record. -/
def admittedContentScope
    (ss : StorageServer)
    (username filename : CString) : Scope :=
  match admittedRecord ss username filename with
  | some rec => contentScope rec True
  | none => noScope True

/-- The scope of `UNDO`. -/
def undoScope (ss : StorageServer) (msg : List CString) : Scope :=
  match msg with
  | _ :: username :: filename :: _ =>
      admittedContentScope ss username filename
  | _ => noScope True

/-- The scope of `REVERT`. -/
def revertScope (ss : StorageServer) (msg : List CString) : Scope :=
  match msg with
  | _ :: username :: filename :: tag :: _ =>
      if tagCopy tag ≠ [] then
        admittedContentScope ss username filename
      else
        noScope True
  | _ => noScope True

/-- The record and the snapshot path of a `CHECKPOINT` that is let through. -/
def checkpointTarget
    (ss : StorageServer)
    (now : Int)
    (msg : List CString) : Option (FileRecord × CString) :=
  match msg with
  | _ :: username :: filename :: tag :: _ =>
      if tagCopy tag ≠ [] then
        (admittedRecord ss username filename).bind fun rec =>
          (snapshotPath ss.storagePath now (tagCopy tag) rec).map fun path =>
            (rec, path)
      else
        none
  | _ => none

/-- The scope of `CHECKPOINT`. -/
def checkpointCommandScope
    (ss : StorageServer)
    (now : Int)
    (msg : List CString) : Scope :=
  match checkpointTarget ss now msg with
  | some (rec, ckptPath) => checkpointScope rec ckptPath
  | none => noScope True

/-- The record an `SS_RENAME` that is let through renames. -/
def renamedRecord
    (ss : StorageServer)
    (oldLogical newLogical : CString) : Option FileRecord :=
  if validateFilename oldLogical && validateFilename newLogical then
    ssFindFile ss.files oldLogical
  else
    none

/-- The scope of `SS_RENAME`. -/
def renameCommandScope
    (ss : StorageServer)
    (oldLogical newLogical : CString) : Scope :=
  match renamedRecord ss oldLogical newLogical with
  | some rec =>
      renameScope rec newLogical (physicalNameOf newLogical)
        (contentPath ss.storagePath oldLogical)
        (contentPath ss.storagePath newLogical)
  | none => noScope True

/-- The checks `handle_ss_copy` makes on its message alone. -/
def validCopyRequest
    (destFilename srcIp srcPortField srcFilename username : CString) :
    Bool :=
  (validateFilename destFilename && validateFilename srcFilename &&
      validateUsername username) &&
    (decide (srcIp = str "LOCAL") ||
      (parseInt srcPortField).any fun srcPort => 0 < srcPort)

/-- The records of an `SS_COPY` that is let through. -/
def copyTarget
    (ss : StorageServer)
    (msg : List CString) : Option (Option FileRecord × FileRecord) :=
  match msg with
  | _ :: destFilename :: srcIp :: srcPortField :: srcFilename ::
      username :: _ =>
      if validCopyRequest destFilename srcIp srcPortField srcFilename
          username then
        admittedCopy ss (srcIp = str "LOCAL") srcFilename destFilename
      else
        none
  | _ => none

/-- The scope of `SS_COPY`. -/
def copyCommandScope (ss : StorageServer) (msg : List CString) : Scope :=
  match copyTarget ss msg with
  | some (_, destRec) => copyScope destRec
  | none => noScope True

/-- The scope of an event that neither creates nor deletes a record. -/
def eventScope (ss : StorageServer) (event : SsEvent) : Scope :=
  match event.command with
  | .writeLock _ _ => noScope False
  | .writeData _ _ => noScope False
  | .etirw fd => etirwScope ss fd
  | .disconnected _ => noScope False
  | .undo _ msg => undoScope ss msg
  | .checkpoint _ msg => checkpointCommandScope ss event.now msg
  | .revert _ msg => revertScope ss msg
  | .createFile _ => noScope True
  | .deleteFile _ => noScope True
  | .ssRename oldLogical newLogical =>
      renameCommandScope ss oldLogical newLogical
  | .ssCopy _ msg => copyCommandScope ss msg

/-! ## Every handler stays within the scope of its command -/

theorem handleClientEtirw_effect
    (now : Int)
    (fd : Nat)
    (ss : StorageServer) :
    Effect (etirwScope ss fd) ss
      (finalState (handleClientEtirw now fd ss)) := by
  have unchanged := (effect_isEffect (noScope True)).refl ss
  simp only [etirwScope, handleClientEtirw, bind_apply, get_apply]
  cases found : ssFindSession ss.sessions fd with
  | none =>
      exact unchanged
  | some session =>
      simp only [bind_apply, get_apply]
      cases reached : recordAt ss.files session.file with
      | none =>
          exact unchanged
      | some rec =>
          exact commitSession_within now fd session rec ss

/-- Whatever an admitted body does, a refused one does nothing. -/
theorem writableIdleRecord_effect
    {username filename : CString}
    {body : FileRecord → Handler Unit}
    {scope : FileRecord → Scope}
    (within : ∀ rec, StaysWithin (Effect (scope rec)) (body rec))
    (ss : StorageServer) :
    Effect
      (match admittedRecord ss username filename with
        | some rec => scope rec
        | none => noScope True)
      ss
      (finalState ((writableIdleRecord username filename >>= body) ss)) := by
  have shape := writableIdleRecord_bind username filename body ss
  cases admitted : admittedRecord ss username filename with
  | none =>
      rw [admitted] at shape
      obtain ⟨refusal, stopped⟩ := shape
      rw [stopped]
      exact (effect_isEffect _).refl ss
  | some rec =>
      rw [admitted] at shape
      simp only at shape
      rw [shape]
      exact within rec ss

theorem handleClientUndo_effect
    (now : Int)
    (fd : Nat)
    (msg : List CString)
    (ss : StorageServer) :
    Effect (undoScope ss msg) ss
      (finalState (handleClientUndo now fd msg ss)) := by
  match msg with
  | _ :: username :: filename :: _ =>
      exact writableIdleRecord_effect
        (fun rec => undoRecord_within now fd username rec) ss
  | [] | [_] | [_, _] =>
      exact (effect_isEffect _).refl ss

theorem handleClientRevert_effect
    (now : Int)
    (fd : Nat)
    (msg : List CString)
    (ss : StorageServer) :
    Effect (revertScope ss msg) ss
      (finalState (handleClientRevert now fd msg ss)) := by
  match msg with
  | _ :: username :: filename :: tag :: _ =>
      simp only [revertScope, handleClientRevert, bind_apply, ensure_apply]
      by_cases empty : tagCopy tag = []
      · simp only [ne_eq, empty, not_true_eq_false, decide_false,
          Bool.false_eq_true, ↓reduceIte, refuse_apply, finalState_error]
        exact (effect_isEffect _).refl ss
      · simp only [ne_eq, empty, not_false_eq_true, decide_true, ↓reduceIte]
        have admitted :
            Effect (admittedContentScope ss username filename) ss _ :=
          writableIdleRecord_effect
            (fun rec =>
              revertRecord_within now fd username (tagCopy tag) rec)
            ss
        rw [bind_apply] at admitted
        exact admitted
  | [] | [_] | [_, _] | [_, _, _] =>
      exact (effect_isEffect _).refl ss

theorem handleClientCheckpoint_effect
    (now : Int)
    (fd : Nat)
    (msg : List CString)
    (ss : StorageServer) :
    Effect (checkpointCommandScope ss now msg) ss
      (finalState (handleClientCheckpoint now fd msg ss)) := by
  have stopped :
      ∀ refusal : Refusal,
        Effect (noScope True) ss
          (finalState (.error refusal ss : EStateM.Result _ _ Unit)) :=
    fun _ => (effect_isEffect _).refl ss
  match msg with
  | _ :: username :: filename :: tag :: _ =>
      simp only [checkpointCommandScope, checkpointTarget,
        handleClientCheckpoint, bind_apply, ensure_apply, get_apply]
      by_cases empty : tagCopy tag = []
      · simp only [ne_eq, empty, not_true_eq_false, decide_false,
          Bool.false_eq_true, ↓reduceIte, refuse_apply]
        exact stopped _
      · simp only [ne_eq, empty, not_false_eq_true, decide_true, ↓reduceIte]
        have shape := writableIdleRecord_apply username filename ss
        cases admitted : admittedRecord ss username filename with
        | none =>
            rw [admitted] at shape
            obtain ⟨refusal, refused⟩ := shape
            rw [refused]
            exact stopped refusal
        | some rec =>
            rw [admitted] at shape
            simp only at shape
            rw [shape]
            cases built :
                snapshotPath ss.storagePath now (tagCopy tag) rec with
            | none =>
                obtain ⟨refusal, refused⟩ :=
                  checkpointRecord_refused now fd username built ss
                simp only [refused, Option.bind_some, built, Option.map_none]
                exact stopped refusal
            | some ckptPath =>
                simp only [Option.bind_some, built, Option.map_some]
                simp only [snapshotPath, Option.ite_none_right_eq_some]
                  at built
                exact checkpointRecord_within now fd username built.2 ss
  | [] | [_] | [_, _] | [_, _, _] =>
      exact stopped _

theorem nsRename_effect
    (now : Int)
    (oldLogical newLogical : CString)
    (ss : StorageServer) :
    Effect (renameCommandScope ss oldLogical newLogical) ss
      (finalState
        (nsRename now (ssRenameMessage oldLogical newLogical) ss)) := by
  unfold renameCommandScope renamedRecord nsRename ssRenameMessage
  simp only
  cases valid :
      validateFilename oldLogical && validateFilename newLogical with
  | false =>
      exact (effect_isEffect _).refl ss
  | true =>
      have oldShort : oldLogical.length < maxFilenameLength :=
        length_of_validateFilename (Bool.and_eq_true_iff.mp valid).1
      rw [bind_apply]
      simp only [ensure_apply, ↓reduceIte]
      rw [bind_apply, ssHandleRename_apply now oldShort]
      cases found : ssFindFile ss.files oldLogical with
      | none =>
          exact (effect_isEffect _).refl ss
      | some rec =>
          have isEffect :=
            effect_isEffect
              (renameScope rec newLogical (physicalNameOf newLogical)
                (contentPath ss.storagePath oldLogical)
                (contentPath ss.storagePath newLogical))
          have within :=
            StaysWithin.bind isEffect
              (renameRecord_within now newLogical
                (physicalNameOf newLogical)
                (contentPath ss.storagePath oldLogical)
                (contentPath ss.storagePath newLogical) rec)
              (fun done =>
                StaysWithin.bind isEffect
                  (.ensure done (.refuse errInternalError "Rename failed"))
                  fun _ => .send .nameServer [str "OK"])
              ss
          rw [bind_apply] at within
          exact within

theorem handleSsCopy_effect
    (now : Int)
    (peer : PeerSession)
    (msg : List CString)
    (ss : StorageServer) :
    Effect (copyCommandScope ss msg) ss
      (finalState (handleSsCopy now peer msg ss)) := by
  match msg with
  | _ :: destFilename :: srcIp :: srcPortField :: srcFilename ::
      username :: _ =>
      have stopped :
          ∀ refusal : Refusal,
            Effect (noScope True) ss
              (finalState
                (.error refusal ss : EStateM.Result _ _ Unit)) :=
        fun _ => (effect_isEffect _).refl ss
      simp only [copyCommandScope, copyTarget, handleSsCopy, validCopyRequest,
        bind_apply, ensure_apply]
      by_cases named :
          (validateFilename destFilename && validateFilename srcFilename &&
            validateUsername username) = true
      · by_cases reachable :
            (decide (srcIp = str "LOCAL") ||
              (parseInt srcPortField).any fun srcPort => 0 < srcPort) = true
        · simp only [named, reachable, Bool.and_true, ↓reduceIte]
          have shape :=
            idleCopyRecords_apply (srcIp = str "LOCAL") srcFilename
              destFilename ss
          cases admitted :
              admittedCopy ss (srcIp = str "LOCAL") srcFilename
                destFilename with
          | none =>
              rw [admitted] at shape
              obtain ⟨refusal, refused⟩ := shape
              rw [refused]
              exact stopped refusal
          | some records =>
              rw [admitted] at shape
              simp only at shape
              rw [shape]
              exact copyInto_within now peer username records.1 records.2 ss
        · simp only [named, reachable, Bool.and_false, Bool.false_eq_true,
            ↓reduceIte, refuse_apply]
          exact stopped _
      · simp only [named, Bool.false_and, Bool.false_eq_true, ↓reduceIte,
          refuse_apply]
        exact stopped _
  | [] | [_] | [_, _] | [_, _, _] | [_, _, _, _] | [_, _, _, _, _] =>
      exact (effect_isEffect _).refl ss

/-- The record a `CREATE_FILE` that is let through sets up. -/
def createdRecord
    (ss : StorageServer)
    (now : Int)
    (msg : List CString) : Option FileRecord :=
  match msg with
  | _ :: filename :: owner :: _ =>
      if validateFilename filename && validateUsername owner &&
          (ssFindFile ss.files filename).isNone then
        some (newFileRecord ss now filename owner)
      else
        none
  | _ => none

/-- A creation writes the new record's own files, then adds the record. -/
theorem nsCreateFile_effect
    (now : Int)
    (msg : List CString)
    (ss : StorageServer) :
    match createdRecord ss now msg with
    | some newRecord =>
        ∃ middle, Effect (newScope newRecord) ss middle ∧
          (finalState (nsCreateFile now msg ss) = middle ∨
            ∃ sent,
              finalState (nsCreateFile now msg ss) =
                { middle with
                  files := newRecord :: middle.files
                  nextAddress := middle.nextAddress + 1
                  sent := sent })
    | none => finalState (nsCreateFile now msg ss) = ss := by
  match msg with
  | _ :: filename :: owner :: _ =>
      simp only [createdRecord, nsCreateFile, ssCreateFile, bind_apply,
        ensure_apply, get_apply]
      by_cases valid :
          (validateFilename filename && validateUsername owner) = true
      · by_cases taken : (ssFindFile ss.files filename).isSome = true
        · have present :
              (ssFindFile ss.files filename).isNone = false := by
            simpa [Option.isSome_iff_ne_none] using taken
          simp [valid, taken, present]
        · have absent :
              (ssFindFile ss.files filename).isNone = true := by
            simpa [Option.isSome_iff_ne_none] using taken
          simp only [valid, absent, taken, Bool.and_true, ↓reduceIte,
            Bool.false_eq_true]
          obtain ⟨middle, effect, ended⟩ :=
            addRecord_effect (newFileRecord ss now filename owner) ss
          refine ⟨middle, effect, ?_⟩
          rcases ended with failed | stored
          · simp [failed]
          · simp only [stored, ↓reduceIte, send_apply, finalState_ok]
            exact Or.inr ⟨_, rfl⟩
      · simp [valid]
  | [] | [_] | [_, _] =>
      rfl

/-- The record a `DELETE_FILE` that is let through removes. -/
def deletedRecord
    (ss : StorageServer)
    (msg : List CString) : Option FileRecord :=
  match msg with
  | _ :: filename :: _ =>
      if validateFilename filename then
        match ssFindFile ss.files filename with
        | some node =>
            if ssFileHasActiveWriters ss.sessions node.address then
              none
            else
              some node
        | none => none
      else
        none
  | _ => none

/-- A deletion unlinks the record's own files, then removes the record. -/
theorem nsDeleteFile_effect
    (msg : List CString)
    (ss : StorageServer) :
    match deletedRecord ss msg with
    | some node =>
        ∃ middle, Effect (removeScope node) ss middle ∧
          ∃ sent,
            finalState (nsDeleteFile msg ss) =
              { middle with
                files := middle.files.eraseP fun r =>
                  r.address = node.address
                sent := sent }
    | none => finalState (nsDeleteFile msg ss) = ss := by
  match msg with
  | _ :: filename :: _ =>
      simp only [deletedRecord, nsDeleteFile, ssDeleteFile, bind_apply,
        ensure_apply]
      by_cases valid : validateFilename filename = true
      · simp only [valid, ↓reduceIte, get_apply]
        cases found : ssFindFile ss.files filename with
        | none =>
            simp
        | some node =>
            by_cases busy :
                ssFileHasActiveWriters ss.sessions node.address = true
            · simp [busy]
            · obtain ⟨middle, effect, removed⟩ :=
                removeRecord_effect node ss
              simp only [get_apply, busy, Bool.false_eq_true, ↓reduceIte,
                bind_apply, removed, pure_apply, send_apply, finalState_ok]
              exact ⟨middle, effect, _, rfl⟩
      · simp [valid]
  | [] | [_] =>
      rfl

/-- The step ends where the handler ends, but for an error message. -/
theorem ssStep_eq (ss : StorageServer) (event : SsEvent) :
    ∃ sent,
      ssStep ss event =
        { finalState (event.handler ss) with sent := sent } := by
  unfold ssStep
  cases event.handler ss with
  | ok value after =>
      exact ⟨after.sent, rfl⟩
  | error refusal after =>
      exact ⟨_, rfl⟩

theorem Effect.with_sent
    {scope : Scope}
    {before after : StorageServer}
    (effect : Effect scope before after)
    (sent : List Message) :
    Effect scope before { after with sent := sent } :=
  ⟨effect.storagePath_eq, effect.nextAddress_eq, effect.disk_agrees,
    effect.avoids_nul, effect.files_stored, effect.sessions_eq⟩

/-- Commands that change the list of records. -/
def SsCommand.changesRecords : SsCommand → Bool
  | createFile _ => true
  | deleteFile _ => true
  | _ => false

/-- A step that neither creates nor deletes stays within its event's scope. -/
theorem ssStep_effect
    (ss : StorageServer)
    (event : SsEvent)
    (keepsRecords : event.command.changesRecords = false) :
    Effect (eventScope ss event) ss (ssStep ss event) := by
  obtain ⟨sent, stepped⟩ := ssStep_eq ss event
  rw [stepped]
  apply Effect.with_sent
  obtain ⟨now, command⟩ := event
  cases command with
  | createFile msg =>
      cases keepsRecords
  | deleteFile msg =>
      cases keepsRecords
  | writeLock fd msg =>
      exact handleClientWriteLock_within fd msg ss
  | writeData fd msg =>
      exact handleClientWriteData_within fd msg ss
  | disconnected fd =>
      exact clientDisconnected_within fd ss
  | etirw fd =>
      exact handleClientEtirw_effect now fd ss
  | undo fd msg =>
      exact handleClientUndo_effect now fd msg ss
  | checkpoint fd msg =>
      exact handleClientCheckpoint_effect now fd msg ss
  | revert fd msg =>
      exact handleClientRevert_effect now fd msg ss
  | ssRename oldLogical newLogical =>
      exact nsRename_effect now oldLogical newLogical ss
  | ssCopy peer msg =>
      exact handleSsCopy_effect now peer msg ss

theorem ssStep_createFile
    (ss : StorageServer)
    (now : Int)
    (msg : List CString) :
    match createdRecord ss now msg with
    | some newRecord =>
        ∃ middle, Effect (newScope newRecord) ss middle ∧
          ∃ sent,
            ssStep ss ⟨now, .createFile msg⟩ = { middle with sent := sent } ∨
              ssStep ss ⟨now, .createFile msg⟩ =
                { middle with
                  files := newRecord :: middle.files
                  nextAddress := middle.nextAddress + 1
                  sent := sent }
    | none =>
        ∃ sent,
          ssStep ss ⟨now, .createFile msg⟩ = { ss with sent := sent } := by
  obtain ⟨sent, stepped⟩ := ssStep_eq ss ⟨now, .createFile msg⟩
  have shape := nsCreateFile_effect now msg ss
  rw [stepped]
  simp only [SsEvent.handler]
  cases created : createdRecord ss now msg with
  | none =>
      rw [created] at shape
      simp only at shape
      exact ⟨sent, by rw [shape]⟩
  | some newRecord =>
      rw [created] at shape
      obtain ⟨middle, effect, failed | ⟨_, stored⟩⟩ := shape
      · exact ⟨middle, effect, sent, Or.inl (by rw [failed])⟩
      · exact ⟨middle, effect, sent, Or.inr (by rw [stored])⟩

theorem ssStep_deleteFile
    (ss : StorageServer)
    (now : Int)
    (msg : List CString) :
    match deletedRecord ss msg with
    | some node =>
        ∃ middle, Effect (removeScope node) ss middle ∧
          ∃ sent,
            ssStep ss ⟨now, .deleteFile msg⟩ =
              { middle with
                files := middle.files.eraseP fun r =>
                  r.address = node.address
                sent := sent }
    | none =>
        ∃ sent,
          ssStep ss ⟨now, .deleteFile msg⟩ = { ss with sent := sent } := by
  obtain ⟨sent, stepped⟩ := ssStep_eq ss ⟨now, .deleteFile msg⟩
  have shape := nsDeleteFile_effect msg ss
  rw [stepped]
  simp only [SsEvent.handler]
  cases deleted : deletedRecord ss msg with
  | none =>
      rw [deleted] at shape
      simp only at shape
      exact ⟨sent, by rw [shape]⟩
  | some node =>
      rw [deleted] at shape
      obtain ⟨middle, effect, _, removed⟩ := shape
      exact ⟨middle, effect, sent, by rw [removed]⟩

theorem deletedRecord_found
    {ss : StorageServer}
    {msg : List CString}
    {node : FileRecord}
    (deleted : deletedRecord ss msg = some node) :
    ∃ type filename rest,
      msg = type :: filename :: rest ∧
        ssFindFile ss.files filename = some node ∧
        ssFileHasActiveWriters ss.sessions node.address = false := by
  match msg with
  | type :: filename :: rest =>
      simp only [deletedRecord, Option.ite_none_right_eq_some] at deleted
      obtain ⟨_, admitted⟩ := deleted
      cases found : ssFindFile ss.files filename with
      | none =>
          simp [found] at admitted
      | some r =>
          simp only [found, Option.ite_none_left_eq_some,
            Option.some.injEq] at admitted
          obtain ⟨idle, rfl⟩ := admitted
          exact ⟨type, filename, rest, rfl, found, by simpa using idle⟩

end DistributedDocs
