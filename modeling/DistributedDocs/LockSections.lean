import DistributedDocs.StorageSessions

namespace DistributedDocs

/-!
# Write locks and deletions by their sections

`REQ_WRITE_LOCK` checks the record under `files_lock` and creates its session
under `sessions_lock` later on; `DELETE_FILE` looks for sessions before it
removes the record, and does not take the record's `file_lock`.  Here every
section that runs under one lock is a step of its own.
-/

/--
How far the handler of a `REQ_WRITE_LOCK` is.  From `found` on it holds the
`file_lock` of the record.
-/
inductive LockStage where
  | begun
  | found (rec : FileRecord)
  | checked (rec : FileRecord)
  | read (rec : FileRecord) (start stop : Nat) (fileData : CString)
  | created (rec : FileRecord)

/-- The record whose `file_lock` the handler holds. -/
def LockStage.locked : LockStage → Option FileRecord
  | .begun => none
  | .found rec => some rec
  | .checked rec => some rec
  | .read rec _ _ _ => some rec
  | .created rec => some rec

/-- The record found by a handler that has not created its session yet. -/
def LockStage.sought : LockStage → Option FileRecord
  | .begun => none
  | .found rec => some rec
  | .checked rec => some rec
  | .read rec _ _ _ => some rec
  | .created _ => none

/-- A `REQ_WRITE_LOCK` that is being handled. -/
structure PendingLock where
  fd : Nat
  username : CString
  filename : CString
  indexField : CString
  sentenceIndex : Int
  stage : LockStage

/-- An `ETIRW` that is being handled, with the session it has read. -/
structure PendingCommit where
  fd : Nat
  session : WriteSession
  written : Bool

/--
The server and the handlers between their sections.  `deleting` is the record
that a deletion has found idle, holding `files_lock`, and not yet removed, with
the name it was asked for by.
-/
structure SectionState where
  ss : StorageServer
  locks : List PendingLock
  commits : List PendingCommit
  deleting : Option (FileRecord × CString)

/-- No handler has begun. -/
def SectionState.idle (ss : StorageServer) : SectionState :=
  ⟨ss, [], [], none⟩

/-- The part of `handle_client_etirw` that runs under `file_lock`. -/
def commitUnderLock
    (now : Int)
    (fd : Nat)
    (session : WriteSession)
    (rec : FileRecord) : Handler Unit := do
  let lockedStart := session.sentenceStart
  let lockedEnd := session.sentenceEnd
  let replacement := session.sentenceWorking
  let some currentSnapshot ← ssReadFileContent rec.filepath
    | refuse errInternalError "Failed to read file"
  ensure (!invalidSentenceBounds currentSnapshot lockedStart lockedEnd)
    (refuse errInternalError "Invalid sentence bounds")
  let newContent := splice currentSnapshot lockedStart lockedEnd replacement
  ensure (← ssWriteFileContent rec.undopath currentSnapshot)
    (refuse errInternalError "Failed to persist undo")
  ensure (← ssWriteFileContent rec.filepath newContent)
    (refuse errInternalError "Failed to write file")
  ssTouchFileMetadata now { rec with undoAvailable := 1 }
    (some session.username) true
  modifySessions fun sessions =>
    ssUpdateActiveSessions sessions rec.address lockedStart
      (lockedEnd - lockedStart) replacement.length
      (etirwSentenceDelta currentSnapshot lockedStart lockedEnd replacement)
      fd

/-- The last section of `handle_client_etirw`, and what follows it. -/
def commitFinish
    (fd : Nat)
    (rec : FileRecord) : Handler Unit := do
  modifySessions fun sessions => ssDetachSession sessions fd
  send (.client fd) [str "OK_WRITE_DONE"]
  ssSyncMetadataToNs rec

/-- The two parts in a row are the commit. -/
theorem commitSession_eq_sections
    (now : Int)
    (fd : Nat)
    (session : WriteSession)
    (rec : FileRecord) :
    commitSession now fd session rec = (do
      commitUnderLock now fd session rec
      commitFinish fd rec) := by
  funext ss
  simp only [commitSession, commitUnderLock, commitFinish, bind_apply]
  cases ssReadFileContent rec.filepath ss with
  | error =>
      rfl
  | ok content after =>
      cases content with
      | none =>
          rfl
      | some currentSnapshot =>
          simp only [bind_apply]
          -- each step that may fail ends both programs in the same way
          split
          · split
            · split
              · split
                · split
                  · rfl
                  · rfl
                · rfl
              · rfl
            · rfl
          · rfl

namespace SectionState

/-- The thread that serves a client is inside a handler. -/
def Busy (state : SectionState) (fd : Nat) : Prop :=
  (∃ lock ∈ state.locks, lock.fd = fd) ∨
    ∃ commit ∈ state.commits, commit.fd = fd

instance (state : SectionState) (fd : Nat) : Decidable (state.Busy fd) :=
  inferInstanceAs (Decidable (_ ∨ _))

/-- Somebody holds the record's `file_lock`. -/
def FileLocked (state : SectionState) (rec : FileRecord) : Prop :=
  ∃ lock ∈ state.locks, ∃ held ∈ lock.stage.locked,
    held.address = rec.address

instance (state : SectionState) (rec : FileRecord) :
    Decidable (state.FileLocked rec) :=
  inferInstanceAs (Decidable (∃ lock ∈ state.locks, _))

/-- The `REQ_WRITE_LOCK` the client's thread is handling. -/
def lockOf (state : SectionState) (fd : Nat) : Option PendingLock :=
  state.locks.find? fun lock => lock.fd = fd

/-- The `ETIRW` the client's thread is handling. -/
def commitOf (state : SectionState) (fd : Nat) : Option PendingCommit :=
  state.commits.find? fun commit => commit.fd = fd

/-- A message to a client. -/
def reply (fd : Nat) (fields : List CString) (state : SectionState) :
    SectionState :=
  { state with
    ss :=
      { state.ss with sent := state.ss.sent ++ [⟨.client fd, fields⟩] } }

/-- The handler goes on to another section. -/
def setStage (fd : Nat) (stage : LockStage) (state : SectionState) :
    SectionState :=
  { state with
    locks :=
      state.locks.map fun lock =>
        if lock.fd = fd then { lock with stage := stage } else lock }

/-- The handler is over, and its `file_lock` free. -/
def endLock (fd : Nat) (state : SectionState) : SectionState :=
  { state with locks := state.locks.filter fun lock => lock.fd ≠ fd }

/-- The handler leaves with an error reply. -/
def refuseLock (fd : Nat) (code : Int) (text : String)
    (state : SectionState) : SectionState :=
  (state.reply fd (Refusal.fields ⟨code, str text⟩)).endLock fd

/-! ## `handle_client_write_lock` -/

/-- Up to `ss_abort_session`, whose section is the first. -/
def begin (fd : Nat) (msg : List CString) (state : SectionState) :
    SectionState :=
  match msg with
  | _ :: username :: filename :: indexField :: _ =>
      match (parseInt indexField).filter (0 ≤ ·) with
      | some sentenceIndex =>
          { state with
            ss :=
              { state.ss with
                sessions := ssDetachSession state.ss.sessions fd }
            locks :=
              { fd, username, filename, indexField, sentenceIndex,
                stage := .begun } :: state.locks }
      | none =>
          state.reply fd
            (Refusal.fields
              ⟨errInvalidRequest, str "Invalid sentence index"⟩)
  | _ =>
      state.reply fd
        (Refusal.fields
          ⟨errInvalidRequest, str "Missing fields in REQ_WRITE_LOCK"⟩)

/-- The section under `files_lock`; it waits where `file_lock` is taken. -/
def find (lock : PendingLock) (state : SectionState) : SectionState :=
  match ssFindFile state.ss.files lock.filename with
  | none =>
      state.refuseLock lock.fd errFileNotFound "File not found"
  | some rec =>
      if !ssCheckWriteAccess rec lock.username then
        state.refuseLock lock.fd errPermissionDenied "No write access"
      else if state.FileLocked rec then
        state
      else
        state.setStage lock.fd (.found rec)

/-- The first section under `sessions_lock`. -/
def check (lock : PendingLock) (rec : FileRecord) (state : SectionState) :
    SectionState :=
  if (ssFindSessionBySentence state.ss.sessions rec.address
      lock.sentenceIndex).isSome then
    state.refuseLock lock.fd errSentenceLocked "Sentence already locked"
  else
    state.setStage lock.fd (.checked rec)

/-- The content is read and the sentence located, under `file_lock` only. -/
def read (lock : PendingLock) (rec : FileRecord) (state : SectionState) :
    SectionState :=
  let result := ssReadFileContent rec.filepath state.ss
  let after := { state with ss := finalState result }
  match result with
  | .ok (some fileData) _ =>
      match ssGetSentenceBounds fileData lock.sentenceIndex with
      | some (start, stop) =>
          after.setStage lock.fd (.read rec start stop fileData)
      | none =>
          after.refuseLock lock.fd errInvalidRequest
            "Sentence index out of range"
  | _ =>
      after.refuseLock lock.fd errInternalError "Failed to read file"

/-- The second section under `sessions_lock`. -/
def create
    (lock : PendingLock)
    (rec : FileRecord)
    (start stop : Nat)
    (fileData : CString)
    (state : SectionState) : SectionState :=
  { state with
    ss :=
      { state.ss with
        sessions :=
          ssCreateSession state.ss.sessions lock.fd rec.address lock.username
            lock.sentenceIndex start stop fileData
            (slice fileData start stop) } }
    |>.setStage lock.fd (.created rec)
    |>.reply lock.fd [str "OK_LOCKED", rec.filename, lock.indexField]
    |>.reply lock.fd [str "OK_CONTENT", slice fileData start stop]

/-- The handler runs its next section. -/
def advanceLock (lock : PendingLock) (state : SectionState) : SectionState :=
  match lock.stage with
  | .begun =>
      -- a deletion between its sections holds `files_lock`
      if state.deleting.isSome then state else state.find lock
  | .found rec =>
      state.check lock rec
  | .checked rec =>
      state.read lock rec
  | .read rec start stop fileData =>
      state.create lock rec start stop fileData
  | .created _ =>
      state.endLock lock.fd

/-! ## `ss_delete_file` -/

/-- The search and the look for writers; `files_lock` stays taken. -/
def deleteCheck (now : Int) (msg : List CString) (state : SectionState) :
    SectionState :=
  match deletedRecord state.ss msg with
  | some node => { state with deleting := some (node, msg.getD 1 []) }
  | none =>
      { state with ss := ssStep state.ss ⟨now, .deleteFile msg⟩ }

/-- The files are unlinked and the record removed. -/
def deleteRemove (state : SectionState) : SectionState :=
  match state.deleting with
  | none => state
  | some (node, filename) =>
      let removal : Handler Unit := do
        removeRecord node
        send .nameServer [str "OK_DELETE", filename]
      { state with
        ss := finalState (removal state.ss)
        deleting := none }

/-! ## `handle_client_etirw` -/

/-- The section that reads the session. -/
def beginCommit (fd : Nat) (state : SectionState) : SectionState :=
  match ssFindSession state.ss.sessions fd with
  | none =>
      state.reply fd
        (Refusal.fields
          ⟨errInvalidRequest, str "No active WRITE session"⟩)
  | some session =>
      { state with commits := ⟨fd, session, false⟩ :: state.commits }

/-- The handler is over. -/
def endCommit (fd : Nat) (state : SectionState) : SectionState :=
  { state with commits := state.commits.filter fun commit => commit.fd ≠ fd }

/-- The handler runs its next section. -/
def advanceCommit (now : Int) (commit : PendingCommit) (state : SectionState) :
    SectionState :=
  match recordAt state.ss.files commit.session.file with
  | none =>
      state.endCommit commit.fd
  | some rec =>
      if commit.written then
        { state with ss := finalState (commitFinish commit.fd rec state.ss) }
          |>.endCommit commit.fd
      else if state.FileLocked rec then
        state
      else
        match commitUnderLock now commit.fd commit.session rec state.ss with
        | .ok _ after =>
            { state with
              ss := after
              commits :=
                state.commits.map fun other =>
                  if other.fd = commit.fd then
                    { other with written := true }
                  else
                    other }
        | .error refusal after =>
            { state with ss := after }
              |>.reply commit.fd refusal.fields
              |>.endCommit commit.fd

end SectionState

/-! ## Runs -/

/-- What a thread of the storage server does next. -/
inductive SectionEvent where
  | writeLock (fd : Nat) (msg : List CString)
  | etirw (fd : Nat)
  | disconnected (fd : Nat)
  | advance (fd : Nat) (now : Int)
  | deleteCheck (now : Int) (msg : List CString)
  | deleteRemove
  | whole (event : SsEvent)

/--
The commands that run in one step here, even where the code has them wait for
a `file_lock` that a `REQ_WRITE_LOCK` holds.
-/
def SsCommand.isWhole : SsCommand → Bool
  | .writeLock _ _ | .writeData _ _ | .etirw _ | .disconnected _
  | .deleteFile _ =>
      false
  | _ => true

/-- One section of one thread. -/
def sectionStep (state : SectionState) : SectionEvent → SectionState
  | .writeLock fd msg =>
      if state.Busy fd then state else state.begin fd msg
  | .etirw fd =>
      if state.Busy fd then state else state.beginCommit fd
  | .disconnected fd =>
      if state.Busy fd then
        state
      else
        { state with
          ss :=
            { state.ss with
              sessions := ssDetachSession state.ss.sessions fd } }
  | .advance fd now =>
      match state.lockOf fd, state.commitOf fd with
      | some lock, _ => state.advanceLock lock
      | none, some commit => state.advanceCommit now commit
      | none, none => state
  | .deleteCheck now msg =>
      if state.deleting.isSome then state else state.deleteCheck now msg
  | .deleteRemove =>
      state.deleteRemove
  | .whole event =>
      if event.command.isWhole ∧ state.deleting = none then
        { state with ss := ssStep state.ss event }
      else
        state

/-- Every session refers to a record that is still there. -/
def SessionsLive (ss : StorageServer) : Prop :=
  ∀ session ∈ ss.sessions, ∃ rec ∈ ss.files, rec.address = session.file

/--
No deletion finds a record idle while a `REQ_WRITE_LOCK` that has found this
record has not created its session.
-/
def SparesPendingLocks (state : SectionState) : SectionEvent → Prop
  | .deleteCheck _ msg =>
      ∀ node ∈ deletedRecord state.ss msg,
        ∀ lock ∈ state.locks, ∀ rec ∈ lock.stage.sought,
          rec.address ≠ node.address
  | _ => True

instance (state : SectionState) :
    ∀ event, Decidable (SparesPendingLocks state event)
  | .deleteCheck _ msg =>
      inferInstanceAs
        (Decidable
          (∀ node ∈ deletedRecord state.ss msg,
            ∀ lock ∈ state.locks, ∀ rec ∈ lock.stage.sought,
              rec.address ≠ node.address))
  | .writeLock _ _ | .etirw _ | .disconnected _ | .advance _ _
  | .deleteRemove | .whole _ =>
      inferInstanceAs (Decidable True)

/-! ## Sections that are not interrupted -/

namespace SectionState

/-- Only one `REQ_WRITE_LOCK` is being handled. -/
def alone (ss : StorageServer) (lock : PendingLock) : SectionState :=
  ⟨ss, [lock], [], none⟩

section Alone

variable (ss : StorageServer) (now : Int)

theorem runFrom_idle_advance (fd steps : Nat) :
    runFrom sectionStep (idle ss) (List.replicate steps (.advance fd now)) =
      idle ss := by
  induction steps with
  | zero =>
      rfl
  | succ steps inductionHypothesis =>
      exact inductionHypothesis

variable
  (fd : Nat)
  (username filename indexField : CString)
  (sentenceIndex : Int)
  (stage : LockStage)

theorem alone_advance :
    sectionStep
        (alone ss ⟨fd, username, filename, indexField, sentenceIndex, stage⟩)
        (.advance fd now) =
      (alone ss
          ⟨fd, username, filename, indexField, sentenceIndex,
            stage⟩).advanceLock
        ⟨fd, username, filename, indexField, sentenceIndex, stage⟩ := by
  simp [sectionStep, lockOf, alone]

theorem alone_refuseLock (code : Int) (text : String) :
    (alone ss
        ⟨fd, username, filename, indexField, sentenceIndex,
          stage⟩).refuseLock fd code text =
      idle
        { ss with
          sent :=
            ss.sent ++ [⟨.client fd, Refusal.fields ⟨code, str text⟩⟩] } := by
  simp [refuseLock, reply, endLock, alone, idle]

theorem alone_setStage (next : LockStage) :
    (alone ss
        ⟨fd, username, filename, indexField, sentenceIndex, stage⟩).setStage
        fd next =
      alone ss
        ⟨fd, username, filename, indexField, sentenceIndex, next⟩ := by
  simp [setStage, alone]

theorem alone_ss (lock : PendingLock) : (alone ss lock).ss = ss :=
  rfl

theorem alone_with_ss (after : StorageServer) (lock : PendingLock) :
    { alone ss lock with ss := after } = alone after lock :=
  rfl

end Alone

end SectionState

/-- Once the record is found, the sections in a row are the handler's end. -/
theorem lockSentence_eq_sections
    (ss : StorageServer)
    (now : Int)
    (fd : Nat)
    (username filename indexField : CString)
    (sentenceIndex : Int)
    (rec : FileRecord)
    (located : ssFindFile ss.files filename = some rec) :
    (runFrom sectionStep
        (.alone ss
          ⟨fd, username, filename, indexField, sentenceIndex, .begun⟩)
        (List.replicate 5 (.advance fd now))).ss =
      match
        lockSentence fd username indexField sentenceIndex rec ss with
      | .ok _ after => after
      | .error refusal after =>
          { after with
            sent := after.sent ++ [⟨.client fd, refusal.fields⟩] } := by
  have unlocked :
      ¬(SectionState.alone ss
          ⟨fd, username, filename, indexField, sentenceIndex,
            .begun⟩).FileLocked rec := by
    simp [SectionState.FileLocked, SectionState.alone, LockStage.locked]
  have undeleting (lock : PendingLock) :
      (SectionState.alone ss lock).deleting = none :=
    rfl
  rw [List.replicate_succ, runFrom_cons, SectionState.alone_advance]
  simp only [SectionState.advanceLock, undeleting, Option.isSome_none,
    Bool.false_eq_true, ↓reduceIte, SectionState.find, SectionState.alone_ss,
    located]
  by_cases access : ssCheckWriteAccess rec username = true
  · simp only [access, Bool.not_true, Bool.false_eq_true, ↓reduceIte,
      if_neg unlocked, SectionState.alone_setStage]
    rw [List.replicate_succ, runFrom_cons, SectionState.alone_advance]
    simp only [SectionState.advanceLock, SectionState.check,
      SectionState.alone_ss, SectionState.alone_setStage,
      SectionState.alone_refuseLock]
    cases free :
        ssFindSessionBySentence ss.sessions rec.address sentenceIndex with
    | some other =>
        simp only [Option.isSome_some, ↓reduceIte,
          SectionState.runFrom_idle_advance]
        simp [lockSentence, access, free, SectionState.idle]
    | none =>
        simp only [Option.isSome_none, Bool.false_eq_true, ↓reduceIte]
        rw [List.replicate_succ, runFrom_cons, SectionState.alone_advance]
        obtain ⟨content, after, outcome⟩ :
            ∃ content after,
              ssReadFileContent rec.filepath ss = .ok content after :=
          ⟨_, _, rfl⟩
        simp only [SectionState.advanceLock, SectionState.read,
          SectionState.alone_ss, outcome, finalState_ok,
          SectionState.alone_with_ss, SectionState.alone_setStage,
          SectionState.alone_refuseLock]
        cases content with
        | none =>
            simp only [SectionState.runFrom_idle_advance]
            simp [lockSentence, access, free, outcome, SectionState.idle]
        | some fileData =>
            cases bounds : ssGetSentenceBounds fileData sentenceIndex with
            | none =>
                simp only [bounds, SectionState.runFrom_idle_advance]
                simp [lockSentence, access, free, outcome, bounds,
                  SectionState.idle]
            | some range =>
                simp only [bounds, List.replicate_succ, List.replicate_zero,
                  runFrom_cons, runFrom_nil, SectionState.alone_advance]
                simp [SectionState.advanceLock, SectionState.create,
                  SectionState.setStage, SectionState.reply,
                  SectionState.alone, SectionState.endLock, sectionStep,
                  SectionState.lockOf, lockSentence, access, free, outcome,
                  bounds]
  · simp only [access, Bool.not_false, ↓reduceIte,
      SectionState.alone_refuseLock, SectionState.runFrom_idle_advance]
    simp [lockSentence, access, SectionState.idle]

/-- The sections of a `REQ_WRITE_LOCK` in a row are its handler. -/
theorem ssStep_writeLock_eq_sections
    (ss : StorageServer)
    (now : Int)
    (fd : Nat)
    (msg : List CString) :
    (runFrom sectionStep (.idle ss)
        (.writeLock fd msg :: List.replicate 5 (.advance fd now))).ss =
      ssStep ss ⟨now, .writeLock fd msg⟩ := by
  have begins :
      sectionStep (.idle ss) (.writeLock fd msg) =
        (SectionState.idle ss).begin fd msg := by
    simp [sectionStep, SectionState.Busy, SectionState.idle]
  rw [runFrom_cons, begins]
  match msg with
  | type :: username :: filename :: indexField :: rest =>
      cases parsed : (parseInt indexField).filter (0 ≤ ·) with
      | none =>
          have refused :
              (SectionState.idle ss).begin fd
                  (type :: username :: filename :: indexField :: rest) =
                .idle
                  { ss with
                    sent :=
                      ss.sent ++
                        [⟨.client fd,
                          Refusal.fields
                            ⟨errInvalidRequest,
                              str "Invalid sentence index"⟩⟩] } := by
            simp [SectionState.begin, parsed, SectionState.reply,
              SectionState.idle]
          rw [refused, SectionState.runFrom_idle_advance]
          cases index : parseInt indexField with
          | none =>
              simp [SectionState.idle, ssStep, SsEvent.handler,
                handleClientWriteLock, index, SsCommand.sender]
          | some sentenceIndex =>
              have negative : ¬0 ≤ sentenceIndex := by
                simpa [index, Option.filter] using parsed
              simp [SectionState.idle, ssStep, SsEvent.handler,
                handleClientWriteLock, index, negative, SsCommand.sender]
      | some sentenceIndex =>
          obtain ⟨index, nonneg⟩ := Option.filter_eq_some_iff.mp parsed
          have begun :
              (SectionState.idle ss).begin fd
                  (type :: username :: filename :: indexField :: rest) =
                .alone
                  { ss with sessions := ssDetachSession ss.sessions fd }
                  ⟨fd, username, filename, indexField, sentenceIndex,
                    .begun⟩ := by
            simp [SectionState.begin, parsed, SectionState.idle,
              SectionState.alone]
          have nonneg : 0 ≤ sentenceIndex := by simpa using nonneg
          rw [begun]
          cases located : ssFindFile ss.files filename with
          | none =>
              rw [List.replicate_succ, runFrom_cons,
                SectionState.alone_advance]
              simp only [SectionState.advanceLock, SectionState.find,
                SectionState.alone_ss, located, SectionState.alone_refuseLock]
              simp only [SectionState.alone, Option.isSome_none,
                Bool.false_eq_true, ↓reduceIte,
                SectionState.runFrom_idle_advance]
              simp [SectionState.idle, ssStep, SsEvent.handler,
                handleClientWriteLock, index, nonneg, located,
                SsCommand.sender]
          | some rec =>
              rw [lockSentence_eq_sections
                { ss with sessions := ssDetachSession ss.sessions fd } now fd
                username filename indexField sentenceIndex rec located]
              have handled :
                  handleClientWriteLock fd
                      (type :: username :: filename :: indexField :: rest)
                      ss =
                    lockSentence fd username indexField sentenceIndex rec
                      { ss with
                        sessions := ssDetachSession ss.sessions fd } := by
                simp only [handleClientWriteLock, index, bind_apply,
                  ensure_apply, nonneg, decide_true, ↓reduceIte,
                  modifySessions_apply, get_apply, located]
              unfold ssStep SsEvent.handler
              exact handled ▸ rfl
  | [] | [_] | [_, _] | [_, _, _] =>
      rfl

/-- The two sections of a deletion in a row are its handler. -/
theorem ssStep_deleteFile_eq_sections
    (ss : StorageServer)
    (now : Int)
    (msg : List CString) :
    (runFrom sectionStep (.idle ss) [.deleteCheck now msg, .deleteRemove]).ss =
      ssStep ss ⟨now, .deleteFile msg⟩ := by
  cases deleted : deletedRecord ss msg with
  | none =>
      simp [sectionStep, SectionState.idle, SectionState.deleteCheck, deleted,
        SectionState.deleteRemove]
  | some node =>
      obtain ⟨type, filename, rest, rfl, located, idle⟩ :=
        deletedRecord_found deleted
      have valid : validateFilename filename = true := by
        by_contra invalid
        simp [deletedRecord, invalid] at deleted
      obtain ⟨middle, _, removed⟩ := removeRecord_effect node ss
      simp [sectionStep, SectionState.idle, SectionState.deleteCheck, deleted,
        SectionState.deleteRemove, ssStep, SsEvent.handler, nsDeleteFile,
        valid, ssDeleteFile, located, idle, removed]

/-! ## What the sections do to sessions and records -/

/-- Sessions refer to no new record, and no record has gone. -/
structure KeepsRefs (before after : StorageServer) : Prop where
  sessions :
    after.sessions.map WriteSession.file ⊆
      before.sessions.map WriteSession.file
  records :
    before.files.map FileRecord.address ⊆ after.files.map FileRecord.address

theorem isEffect_keepsRefs : IsEffect KeepsRefs where
  refl _ := ⟨List.Subset.refl _, List.Subset.refl _⟩
  trans first second :=
    ⟨List.Subset.trans second.sessions first.sessions,
      List.Subset.trans first.records second.records⟩

theorem sessionsLive_iff (ss : StorageServer) :
    SessionsLive ss ↔
      ss.sessions.map WriteSession.file ⊆ ss.files.map FileRecord.address := by
  simp only [SessionsLive, List.subset_def, List.mem_map,
    forall_exists_index, and_imp, forall_apply_eq_imp_iff₂]

theorem SessionsLive.mono
    {before after : StorageServer}
    (live : SessionsLive before)
    (keeps : KeepsRefs before after) :
    SessionsLive after := by
  rw [sessionsLive_iff] at live ⊢
  exact List.Subset.trans (List.Subset.trans keeps.sessions live) keeps.records

namespace KeepsRefs

/-- A program that touches neither table. -/
theorem of_same
    {before after : StorageServer}
    (sessions : after.sessions = before.sessions)
    (files : after.files = before.files) :
    KeepsRefs before after :=
  ⟨sessions ▸ List.Subset.refl _, files ▸ List.Subset.refl _⟩

theorem fewer
    {ss : StorageServer}
    {sessions : List WriteSession}
    (sub : sessions.Sublist ss.sessions) :
    KeepsRefs ss { ss with sessions := sessions } :=
  ⟨(sub.map _).subset, List.Subset.refl _⟩

theorem onDisk
    {α : Type}
    (operation : Disk CString → α × Disk CString) :
    StaysWithin KeepsRefs (onDisk operation) :=
  fun _ => of_same rfl rfl

theorem send (receiver : Peer) (fields : List CString) :
    StaysWithin KeepsRefs (send receiver fields) :=
  fun _ => of_same rfl rfl

theorem refuse {α : Type} (code : Int) (text : String) :
    StaysWithin KeepsRefs (refuse code text : Handler α) :=
  .throw isEffect_keepsRefs _

theorem ensure
    (condition : Bool)
    {otherwise : Handler Unit}
    (within : StaysWithin KeepsRefs otherwise) :
    StaysWithin KeepsRefs (ensure condition otherwise) :=
  .ite (.pure isEffect_keepsRefs _) within

theorem ssReadFileContent (path : CString) :
    StaysWithin KeepsRefs (ssReadFileContent path) :=
  .bind isEffect_keepsRefs (onDisk _) fun _ => .pure isEffect_keepsRefs _

theorem ssWriteFileContent (path data : CString) :
    StaysWithin KeepsRefs (ssWriteFileContent path data) :=
  .bind isEffect_keepsRefs (onDisk _) fun _ => .pure isEffect_keepsRefs _

theorem ssTouchFileMetadata
    (now : Int)
    (rec : FileRecord)
    (username : Option CString)
    (updateModified : Bool) :
    StaysWithin KeepsRefs
      (ssTouchFileMetadata now rec username updateModified) := by
  refine .bind isEffect_keepsRefs (.modify fun ss => ?_) fun _ => ?_
  · exact ⟨List.Subset.refl _, by simp⟩
  · refine .bind isEffect_keepsRefs ?_ fun _ => .pure isEffect_keepsRefs _
    exact .bind isEffect_keepsRefs (onDisk _) fun _ =>
      .pure isEffect_keepsRefs _

theorem ssSyncMetadataToNs (rec : FileRecord) :
    StaysWithin KeepsRefs (ssSyncMetadataToNs rec) := by
  refine .bind isEffect_keepsRefs ?_ fun _ => ?_
  · refine .bind isEffect_keepsRefs (.get isEffect_keepsRefs) fun _ => ?_
    split <;> exact .pure isEffect_keepsRefs _
  · exact .bind isEffect_keepsRefs (ssReadFileContent _) fun _ => send _ _

theorem commitUnderLock
    (now : Int)
    (fd : Nat)
    (session : WriteSession)
    (rec : FileRecord) :
    StaysWithin KeepsRefs (commitUnderLock now fd session rec) := by
  unfold DistributedDocs.commitUnderLock
  refine .bind isEffect_keepsRefs (ssReadFileContent _) fun snapshot => ?_
  split
  · refine .bind isEffect_keepsRefs (ensure _ (refuse _ _)) fun _ => ?_
    refine .bind isEffect_keepsRefs (ssWriteFileContent _ _) fun _ => ?_
    refine .bind isEffect_keepsRefs (ensure _ (refuse _ _)) fun _ => ?_
    refine .bind isEffect_keepsRefs (ssWriteFileContent _ _) fun _ => ?_
    refine .bind isEffect_keepsRefs (ensure _ (refuse _ _)) fun _ => ?_
    refine .bind isEffect_keepsRefs (ssTouchFileMetadata _ _ _ _) fun _ => ?_
    exact .modify fun ss =>
      ⟨by simp [ssUpdateActiveSessions, Function.comp_def],
        List.Subset.refl _⟩
  · exact refuse _ _

theorem commitFinish (fd : Nat) (rec : FileRecord) :
    StaysWithin KeepsRefs (commitFinish fd rec) := by
  refine .bind isEffect_keepsRefs (.modify fun ss => ?_) fun _ => ?_
  · exact fewer (ssDetachSession_sublist _ fd)
  · exact .bind isEffect_keepsRefs (send _ _) fun _ => ssSyncMetadataToNs _

/-- A command that runs in one step. -/
theorem ssStep
    (ss : StorageServer)
    {event : SsEvent}
    (isWhole : event.command.isWhole = true) :
    KeepsRefs ss (ssStep ss event) := by
  have keepsSessions : event.command.changesSessions = false := by
    cases at_ : event.command <;> rw [at_] at isWhole <;>
      first
        | rfl
        | cases isWhole
  have effect := stepEffect ss event
  have sessions :=
    effect.sessions_eq (keepsSessions_of_changesSessions event keepsSessions)
  refine ⟨sessions ▸ List.Subset.refl _, ?_⟩
  cases effect.records with
  | kept files_eq _ =>
      rw [files_eq]
      exact List.Subset.refl _
  | stored _ _ files_eq _ =>
      rw [files_eq, addresses_storeRecord]
      exact List.Subset.refl _
  | added _ _ files_eq _ =>
      rw [files_eq]
      exact List.subset_cons_self _ _
  | removed isDelete _ _ _ =>
      rw [isDelete] at isWhole
      cases isWhole

end KeepsRefs

/-! ## The invariant -/

/--
Sessions and the records being locked are there, and what a deletion is about
to remove is neither.
-/
structure SectionsSound (state : SectionState) : Prop where
  live : SessionsLive state.ss
  sought :
    ∀ lock ∈ state.locks, ∀ rec ∈ lock.stage.sought,
      rec.address ∈ state.ss.files.map FileRecord.address
  spared :
    ∀ node ∈ state.deleting,
      node.1.address ∉ state.ss.sessions.map WriteSession.file ∧
        ∀ lock ∈ state.locks, ∀ rec ∈ lock.stage.sought,
          rec.address ≠ node.1.address

namespace SectionsSound

variable {state : SectionState}

theorem idle
    {ss : StorageServer}
    (live : SessionsLive ss) :
    SectionsSound (.idle ss) where
  live := live
  sought _ member := by cases member
  spared _ member := by cases member

/-- A section that finds no record, opens no session and removes nothing. -/
theorem of_keeps
    (sound : SectionsSound state)
    {after : SectionState}
    (keeps : KeepsRefs state.ss after.ss)
    (locks :
      ∀ lock ∈ after.locks, ∀ rec ∈ lock.stage.sought,
        ∃ earlier ∈ state.locks, rec ∈ earlier.stage.sought)
    (deleting : after.deleting = state.deleting) :
    SectionsSound after where
  live := sound.live.mono keeps
  sought lock member rec isSought := by
    obtain ⟨earlier, earlierMember, wasSought⟩ := locks lock member rec isSought
    exact keeps.records (sound.sought earlier earlierMember rec wasSought)
  spared node member := by
    obtain ⟨unused, unsought⟩ := sound.spared node (deleting ▸ member)
    refine ⟨fun used => unused (keeps.sessions used), ?_⟩
    intro lock lockMember rec isSought
    obtain ⟨earlier, earlierMember, wasSought⟩ :=
      locks lock lockMember rec isSought
    exact unsought earlier earlierMember rec wasSought

/-- A stage that seeks no more than the client's handler did before. -/
theorem setStage_sought
    {lock : PendingLock}
    (isLock : lock ∈ state.locks)
    {stage : LockStage}
    (fewer : ∀ rec ∈ stage.sought, rec ∈ lock.stage.sought) :
    ∀ other ∈ (state.setStage lock.fd stage).locks,
      ∀ rec ∈ other.stage.sought,
        ∃ earlier ∈ state.locks, rec ∈ earlier.stage.sought := by
  intro other member rec isSought
  obtain ⟨before, beforeMember, rfl⟩ := List.mem_map.mp member
  split at isSought
  · exact ⟨lock, isLock, fewer rec isSought⟩
  · exact ⟨before, beforeMember, isSought⟩

theorem endLock_sought (fd : Nat) :
    ∀ other ∈ (state.endLock fd).locks, ∀ rec ∈ other.stage.sought,
      ∃ earlier ∈ state.locks, rec ∈ earlier.stage.sought :=
  fun other member _ isSought =>
    ⟨other, (List.mem_filter.mp member).1, isSought⟩

theorem refuseLock
    (sound : SectionsSound state)
    (fd : Nat)
    (code : Int)
    (text : String) :
    SectionsSound (state.refuseLock fd code text) :=
  sound.of_keeps (.of_same rfl rfl) (endLock_sought fd) rfl

theorem begin
    (sound : SectionsSound state)
    (fd : Nat)
    (msg : List CString) :
    SectionsSound (state.begin fd msg) := by
  have replied (fields : List CString) :
      SectionsSound (state.reply fd fields) :=
    sound.of_keeps (.of_same rfl rfl)
      (fun lock member rec isSought => ⟨lock, member, isSought⟩) rfl
  unfold SectionState.begin
  split
  · split
    · refine sound.of_keeps (.fewer (ssDetachSession_sublist _ fd)) ?_ rfl
      intro lock member rec isSought
      rcases List.mem_cons.mp member with rfl | earlier
      · cases isSought
      · exact ⟨lock, earlier, isSought⟩
    · exact replied _
  · exact replied _

/-- Whoever finds a record while no deletion is going on finds it there. -/
theorem find
    (sound : SectionsSound state)
    (free : state.deleting = none)
    (lock : PendingLock) :
    SectionsSound (state.find lock) := by
  unfold SectionState.find
  split
  · exact sound.refuseLock _ _ _
  · next rec found =>
    split
    · exact sound.refuseLock _ _ _
    · split
      · exact sound
      · exact
          { live := sound.live
            sought := by
              intro other member sought isSought
              obtain ⟨before, beforeMember, rfl⟩ := List.mem_map.mp member
              split at isSought
              · cases isSought
                exact List.mem_map_of_mem (List.mem_of_find?_eq_some found)
              · exact sound.sought before beforeMember sought isSought
            spared := by
              intro node member
              rw [show state.deleting = some node from member] at free
              cases free }

theorem check
    (sound : SectionsSound state)
    {lock : PendingLock}
    (isLock : lock ∈ state.locks)
    {rec : FileRecord}
    (atStage : lock.stage = .found rec) :
    SectionsSound (state.check lock rec) := by
  unfold SectionState.check
  split
  · exact sound.refuseLock _ _ _
  · refine sound.of_keeps (.of_same rfl rfl)
      (setStage_sought isLock fun found isFound => ?_) rfl
    rw [atStage]
    exact isFound

theorem read
    (sound : SectionsSound state)
    {lock : PendingLock}
    (isLock : lock ∈ state.locks)
    {rec : FileRecord}
    (atStage : lock.stage = .checked rec) :
    SectionsSound (state.read lock rec) := by
  have after :
      SectionsSound
        { state with
          ss := finalState (ssReadFileContent rec.filepath state.ss) } :=
    sound.of_keeps (KeepsRefs.ssReadFileContent rec.filepath state.ss)
      (fun lock member rec isSought => ⟨lock, member, isSought⟩) rfl
  unfold SectionState.read
  simp only
  split
  · split
    · refine after.of_keeps (.of_same rfl rfl)
        (setStage_sought isLock fun found isFound => ?_) rfl
      rw [atStage]
      exact isFound
    · exact after.refuseLock _ _ _
  · exact after.refuseLock _ _ _

/-- The session that is created refers to the record its handler found. -/
theorem create
    (sound : SectionsSound state)
    {lock : PendingLock}
    (isLock : lock ∈ state.locks)
    {rec : FileRecord}
    {start stop : Nat}
    {fileData : CString}
    (atStage : lock.stage = .read rec start stop fileData) :
    SectionsSound (state.create lock rec start stop fileData) := by
  have isSought : rec ∈ lock.stage.sought := by
    rw [atStage]
    rfl
  have fewer :
      ∀ sought ∈ (LockStage.created rec).sought,
        sought ∈ lock.stage.sought := by
    rintro _ ⟨⟩
  have locks := @setStage_sought state lock isLock (.created rec) fewer
  exact
    { live := by
        intro session member
        rcases List.mem_cons.mp member with rfl | earlier
        · obtain ⟨held, heldMember, same⟩ :=
            List.mem_map.mp (sound.sought lock isLock rec isSought)
          exact ⟨held, heldMember, same⟩
        · exact sound.live session earlier
      sought := by
        intro other member sought soughtIn
        obtain ⟨before, beforeMember, wasSought⟩ :=
          locks other member sought soughtIn
        exact sound.sought before beforeMember sought wasSought
      spared := by
        intro node member
        obtain ⟨unused, unsought⟩ := sound.spared node member
        refine ⟨fun used => ?_, ?_⟩
        · rcases List.mem_cons.mp used with new | earlier
          · exact unsought lock isLock rec isSought new.symm
          · exact unused earlier
        · intro other otherMember sought soughtIn
          obtain ⟨before, beforeMember, wasSought⟩ :=
            locks other otherMember sought soughtIn
          exact unsought before beforeMember sought wasSought }

theorem advanceLock
    (sound : SectionsSound state)
    {lock : PendingLock}
    (isLock : lock ∈ state.locks) :
    SectionsSound (state.advanceLock lock) := by
  unfold SectionState.advanceLock
  split
  · split
    · exact sound
    · next free =>
      exact sound.find (Option.not_isSome_iff_eq_none.mp free) lock
  · next atStage =>
    exact sound.check isLock atStage
  · next atStage =>
    exact sound.read isLock atStage
  · next atStage =>
    exact sound.create isLock atStage
  · exact sound.of_keeps (.of_same rfl rfl) (endLock_sought lock.fd) rfl

theorem advanceCommit
    (sound : SectionsSound state)
    (now : Int)
    (commit : PendingCommit) :
    SectionsSound (state.advanceCommit now commit) := by
  have same (lock : PendingLock) (member : lock ∈ state.locks)
      (rec : FileRecord) (isSought : rec ∈ lock.stage.sought) :
      ∃ earlier ∈ state.locks, rec ∈ earlier.stage.sought :=
    ⟨lock, member, isSought⟩
  unfold SectionState.advanceCommit
  split
  · exact sound.of_keeps (.of_same rfl rfl) same rfl
  · next rec _ =>
    split
    · exact sound.of_keeps (KeepsRefs.commitFinish commit.fd rec state.ss)
        same rfl
    · split
      · exact sound
      · have keeps :=
          KeepsRefs.commitUnderLock now commit.fd commit.session rec state.ss
        split
        · next outcome =>
          rw [outcome] at keeps
          exact sound.of_keeps keeps same rfl
        · next outcome =>
          rw [outcome] at keeps
          exact sound.of_keeps
            (isEffect_keepsRefs.trans keeps (.of_same rfl rfl)) same rfl

/-- A record found idle has no session. -/
theorem idle_of_deletedRecord
    {ss : StorageServer}
    {msg : List CString}
    {node : FileRecord}
    (deleted : deletedRecord ss msg = some node) :
    node.address ∉ ss.sessions.map WriteSession.file := by
  intro used
  obtain ⟨session, member, same⟩ := List.mem_map.mp used
  obtain ⟨_, _, _, _, _, idle⟩ := deletedRecord_found deleted
  simp only [ssFileHasActiveWriters, List.any_eq_false, decide_eq_true_eq]
    at idle
  exact idle session member same

theorem deleteCheck
    (sound : SectionsSound state)
    (now : Int)
    (msg : List CString)
    (spares : SparesPendingLocks state (.deleteCheck now msg)) :
    SectionsSound (state.deleteCheck now msg) := by
  unfold SectionState.deleteCheck
  split
  · next node deleted =>
    exact
      { live := sound.live
        sought := sound.sought
        spared := by
          rintro found ⟨⟩
          exact ⟨idle_of_deletedRecord deleted,
            fun lock member rec isSought =>
              spares node deleted lock member rec isSought⟩ }
  · next kept =>
    have shape := ssStep_deleteFile state.ss now msg
    rw [kept] at shape
    obtain ⟨sent, stepped⟩ := shape
    refine sound.of_keeps ?_
      (fun lock member rec isSought => ⟨lock, member, isSought⟩) rfl
    rw [stepped]
    exact .of_same rfl rfl

/-- What is removed is no session's record and sought by nobody. -/
theorem deleteRemove (sound : SectionsSound state) :
    SectionsSound state.deleteRemove := by
  unfold SectionState.deleteRemove
  split
  · exact sound
  · next node filename deleting =>
    obtain ⟨unused, unsought⟩ := sound.spared (node, filename) deleting
    obtain ⟨middle, effect, removed⟩ := removeRecord_effect node state.ss
    have filesKept : middle.files = state.ss.files :=
      effect.files_eq_of_allows_nothing fun _ => id
    have sessionsKept : middle.sessions = state.ss.sessions :=
      effect.sessions_eq trivial
    have remaining
        {address : Nat}
        (present : address ∈ state.ss.files.map FileRecord.address)
        (other : address ≠ node.address) :
        address ∈
          (state.ss.files.eraseP fun r => r.address = node.address).map
            FileRecord.address := by
      obtain ⟨rec, member, rfl⟩ := List.mem_map.mp present
      refine List.mem_map_of_mem ?_
      exact (List.mem_eraseP_of_neg (by simpa using other)).mpr member
    simp only [bind_apply, removed, send_apply, finalState_ok, filesKept,
      sessionsKept]
    exact
      { live := by
          rw [sessionsLive_iff]
          intro address used
          have present := (sessionsLive_iff state.ss).mp sound.live used
          exact remaining present fun same => unused (same ▸ used)
        sought := by
          intro lock member rec isSought
          exact remaining (sound.sought lock member rec isSought)
            (unsought lock member rec isSought)
        spared := by rintro _ ⟨⟩ }

theorem step
    (sound : SectionsSound state)
    {event : SectionEvent}
    (spares : SparesPendingLocks state event) :
    SectionsSound (sectionStep state event) := by
  have same (lock : PendingLock) (member : lock ∈ state.locks)
      (rec : FileRecord) (isSought : rec ∈ lock.stage.sought) :
      ∃ earlier ∈ state.locks, rec ∈ earlier.stage.sought :=
    ⟨lock, member, isSought⟩
  cases event with
  | writeLock fd msg =>
      simp only [sectionStep]
      split
      · exact sound
      · exact sound.begin fd msg
  | etirw fd =>
      simp only [sectionStep, SectionState.beginCommit]
      split
      · exact sound
      · split
        · exact sound.of_keeps (.of_same rfl rfl) same rfl
        · exact sound.of_keeps (.of_same rfl rfl) same rfl
  | disconnected fd =>
      simp only [sectionStep]
      split
      · exact sound
      · exact sound.of_keeps (.fewer (ssDetachSession_sublist _ fd)) same rfl
  | advance fd now =>
      simp only [sectionStep]
      split
      · next found =>
        exact sound.advanceLock (List.mem_of_find?_eq_some found)
      · exact sound.advanceCommit now _
      · exact sound
  | deleteCheck now msg =>
      simp only [sectionStep]
      split
      · exact sound
      · exact sound.deleteCheck now msg spares
  | deleteRemove =>
      exact sound.deleteRemove
  | whole event =>
      simp only [sectionStep]
      split
      · next isWhole =>
        exact sound.of_keeps (.ssStep state.ss isWhole.1) same rfl
      · exact sound

end SectionsSound

/--
Every session refers to a record that is still there, as long as no deletion
finds a record idle while a `REQ_WRITE_LOCK` is between finding this record
and creating its session.
-/
theorem sessionsLive_of_sparesPendingLocks
    (storagePath : {path : CString // path.length ≤ maxTagLength})
    (events : List SectionEvent)
    (spares :
      GuardedRun sectionStep SparesPendingLocks
        (.idle (newServer storagePath)) events) :
    SessionsLive
      (runFrom sectionStep (.idle (newServer storagePath)) events).ss := by
  have preserved :
      ∀ state event,
        SectionsSound state → SparesPendingLocks state event →
          SectionsSound (sectionStep state event) :=
    fun _ _ sound spares => sound.step spares
  have initially : SectionsSound (.idle (newServer storagePath)) :=
    .idle fun _ member => by cases member
  exact (GuardedRun.invariant preserved initially spares).live

/-- A server with one file, which `REQ_WRITE_LOCK` has found and read. -/
def lockedBeforeSession : List SectionEvent :=
  [.whole ⟨0, .createFile [str "CREATE_FILE", str "notes", str "alice"]⟩,
    .writeLock 3
      [str "REQ_WRITE_LOCK", str "alice", str "notes", str "0"],
    .advance 3 1, .advance 3 1, .advance 3 1]

/-- A deletion that comes once the session is there. -/
def deletedAfterLock : List SectionEvent :=
  lockedBeforeSession ++
    [.advance 3 1, .advance 3 1,
      .deleteCheck 2 [str "DELETE_FILE", str "notes"], .etirw 3,
      .advance 3 3, .advance 3 3,
      .deleteCheck 4 [str "DELETE_FILE", str "notes"], .deleteRemove]

theorem sessionsLive_deletedAfterLock :
    SessionsLive
      (runFrom sectionStep (.idle (newServer ⟨str "s", by decide⟩))
        deletedAfterLock).ss :=
  sessionsLive_of_sparesPendingLocks ⟨str "s", by decide⟩ deletedAfterLock
    (by decide +kernel)

/-- A deletion that comes before the session is there. -/
def deletedBeforeSession : List SectionEvent :=
  lockedBeforeSession ++
    [.deleteCheck 2 [str "DELETE_FILE", str "notes"], .deleteRemove,
      .advance 3 3, .advance 3 3]

/-- The lock is acknowledged and its session refers to a removed record. -/
theorem session_left_deletedBeforeSession :
    let final :=
      (runFrom sectionStep (.idle (newServer ⟨str "s", by decide⟩))
        deletedBeforeSession).ss
    final.files = [] ∧ final.sessions.map WriteSession.file = [0] ∧
      ⟨.client 3, [str "OK_LOCKED", str "notes", str "0"]⟩ ∈ final.sent ∧
      ¬SessionsLive final := by
  have run :
      let final :=
        (runFrom sectionStep (.idle (newServer ⟨str "s", by decide⟩))
          deletedBeforeSession).ss
      final.files = [] ∧ final.sessions.map WriteSession.file = [0] ∧
        ⟨.client 3, [str "OK_LOCKED", str "notes", str "0"]⟩ ∈
          final.sent := by
    decide +kernel
  obtain ⟨noFiles, refers, acknowledged⟩ := run
  refine ⟨noFiles, refers, acknowledged, fun live => ?_⟩
  rw [sessionsLive_iff, noFiles, refers] at live
  cases live (List.mem_singleton.mpr rfl)

end DistributedDocs
