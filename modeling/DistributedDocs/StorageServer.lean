import DistributedDocs.FileRecord
import DistributedDocs.Numerals
import DistributedDocs.WriteSession

namespace DistributedDocs

/-!
# The storage server

The handlers of `storage_server.c` as programs on the server's state.  A
handler that replies with an error leaves early; what it has changed by then
stays changed.  Each handler is one atomic step here, and `now` is the clock
during that step.
-/

/-- The other end of a connection. -/
inductive Peer where
  | nameServer
  | client (fd : Nat)
  deriving DecidableEq

/-- A message handed to `protocol_build_message`. -/
structure Message where
  receiver : Peer
  fields : List CString
  deriving DecidableEq

/-- A code and a text for `protocol_build_error`. -/
structure Refusal where
  code : Int
  text : CString
  deriving DecidableEq

/-- `ERR_INVALID_REQUEST` -/
def errInvalidRequest : Int := 400

/-- `ERR_PERMISSION_DENIED` -/
def errPermissionDenied : Int := 403

/-- `ERR_FILE_NOT_FOUND` -/
def errFileNotFound : Int := 404

/-- `ERR_FILE_EXISTS` -/
def errFileExists : Int := 409

/-- `ERR_SENTENCE_LOCKED` -/
def errSentenceLocked : Int := 423

/-- `ERR_INTERNAL_ERROR` -/
def errInternalError : Int := 500

/-- `ERR_NO_UNDO_HISTORY` -/
def errNoUndoHistory : Int := 502

/-- The fields of an error message. -/
def Refusal.fields (refusal : Refusal) : List CString :=
  [str "ERR", decimal refusal.code, refusal.text]

/--
`StorageServer`: its records, sessions and disk, the next unused address, and
all messages sent so far.  `ss_build_storage_path` gives short paths only.
-/
structure StorageServer where
  storagePath : {path : CString // path.length ≤ maxTagLength}
  files : List FileRecord
  sessions : List WriteSession
  disk : Disk CString
  nextAddress : Nat
  sent : List Message

/-- `ss_find_file` -/
def ssFindFile
    (files : List FileRecord)
    (filename : CString) : Option FileRecord :=
  files.find? fun node => strncmpEq node.filename filename maxFilenameLength

/-- The record at an address, as a session's `file` pointer reaches it. -/
def recordAt (files : List FileRecord) (address : Nat) : Option FileRecord :=
  files.find? fun node => node.address = address

/-- Store a changed record at its address. -/
def storeRecord (rec : FileRecord) (files : List FileRecord) :
    List FileRecord :=
  files.map fun node => if node.address = rec.address then rec else node

/-- A server that has just set up its storage directory. -/
def newServer
    (storagePath : {path : CString // path.length ≤ maxTagLength}) :
    StorageServer where
  storagePath := storagePath
  files := []
  sessions := []
  disk := ⟨fun _ => none, []⟩
  nextAddress := 0
  sent := []

theorem length_shortPath : (str "s").length ≤ maxTagLength := by
  decide

/-! ## Programs -/

/-- A handler, which may reply with an error and leave early. -/
abbrev Handler := EStateM Refusal StorageServer

/-- Leave with an error reply. -/
def refuse {α : Type} (code : Int) (text : String) : Handler α :=
  throw ⟨code, str text⟩

/-- Go on if the condition holds; `otherwise` replies with an error. -/
def ensure (condition : Bool) (otherwise : Handler Unit) : Handler Unit :=
  if condition then pure () else otherwise

/-- `protocol_send_message` -/
def send (receiver : Peer) (fields : List CString) : Handler Unit :=
  modify fun ss => { ss with sent := ss.sent ++ [⟨receiver, fields⟩] }

/-- Change the session table. -/
def modifySessions (change : List WriteSession → List WriteSession) :
    Handler Unit :=
  modify fun ss => { ss with sessions := change ss.sessions }

/-- Run one operation of the disk. -/
def onDisk {α : Type} (operation : Disk CString → α × Disk CString) :
    Handler α :=
  modifyGet fun ss =>
    ((operation ss.disk).1, { ss with disk := (operation ss.disk).2 })

section Running

variable (ss : StorageServer)

@[simp] theorem refuse_apply {α : Type} (code : Int) (text : String) :
    (refuse code text : Handler α) ss = .error ⟨code, str text⟩ ss :=
  rfl

@[simp] theorem ensure_apply (condition : Bool) (otherwise : Handler Unit) :
    ensure condition otherwise ss =
      if condition then .ok () ss else otherwise ss := by
  unfold ensure
  split <;> rfl

@[simp] theorem send_apply (receiver : Peer) (fields : List CString) :
    send receiver fields ss =
      .ok () { ss with sent := ss.sent ++ [⟨receiver, fields⟩] } :=
  rfl

@[simp] theorem modifySessions_apply
    (change : List WriteSession → List WriteSession) :
    modifySessions change ss =
      .ok () { ss with sessions := change ss.sessions } :=
  rfl

@[simp] theorem onDisk_apply
    {α : Type}
    (operation : Disk CString → α × Disk CString) :
    onDisk operation ss =
      .ok (operation ss.disk).1
        { ss with disk := (operation ss.disk).2 } :=
  rfl

end Running

/-- `ss_read_file_content` -/
def ssReadFileContent (path : CString) : Handler (Option CString) := do
  let bytes ← onDisk (Disk.read path)
  return bytes.map cString

/-- `ss_write_file_content`; false where it returns -1. -/
def ssWriteFileContent (path data : CString) : Handler Bool := do
  let ended ← onDisk (Disk.write path (rawBytes data))
  return ended = .complete

/-- `ss_copy_file`; false where it returns -1. -/
def ssCopyFile (srcPath destPath : CString) : Handler Bool :=
  onDisk (Disk.copy srcPath destPath)

/-- `unlink` -/
def unlink (path : CString) : Handler Unit :=
  modify fun ss => { ss with disk := ss.disk.unlink path }

/-- `rename`; false where it fails. -/
def rename (old new : CString) : Handler Bool :=
  onDisk (Disk.rename old new)

/-- `ss_file_exists` and `file_exists` -/
def ssFileExists (path : CString) : Handler Bool := do
  return ((← get).disk.bytesAt path).isSome

/-- `get_file_size`, with 0 for a missing file as its callers print it. -/
def getFileSize (path : CString) : Handler Nat := do
  match (← get).disk.bytesAt path with
  | some bytes => return bytes.length
  | none => return 0

/-- `ss_write_metadata`; only a failure to open the sidecar is noticed. -/
def ssWriteMetadata (rec : FileRecord) : Handler Bool := do
  let ended ← onDisk (Disk.write rec.metapath (rawBytes (metadataText rec)))
  return ended ≠ .notOpened

/-- `ss_touch_file_metadata` on a record with the changes made so far. -/
def ssTouchFileMetadata
    (now : Int)
    (rec : FileRecord)
    (username : Option CString)
    (updateModified : Bool) : Handler Unit := do
  let touched := rec.touched now username updateModified
  modify fun ss => { ss with files := storeRecord touched ss.files }
  let _ ← ssWriteMetadata touched

/-- `ss_sync_metadata_to_ns`, with the name server connected. -/
def ssSyncMetadataToNs (rec : FileRecord) : Handler Unit := do
  let size ← getFileSize rec.filepath
  let content ← ssReadFileContent rec.filepath
  let (words, chars) :=
    match content with
    | some text => (countWords text, countChars text)
    | none => (0, 0)
  send .nameServer
    [ str "WRITE_COMPLETE", rec.filename, decimal size, decimal words,
      decimal chars ]

/-! ## Commands of clients -/

/-- `handle_client_write_lock`, from the record on. -/
def lockSentence
    (fd : Nat)
    (username indexField : CString)
    (sentenceIndex : Int)
    (rec : FileRecord) : Handler Unit := do
  ensure (ssCheckWriteAccess rec username)
    (refuse errPermissionDenied "No write access")
  ensure (ssFindSessionBySentence (← get).sessions rec.address
      sentenceIndex).isNone
    (refuse errSentenceLocked "Sentence already locked")
  let some fileData ← ssReadFileContent rec.filepath
    | refuse errInternalError "Failed to read file"
  let some (start, stop) := ssGetSentenceBounds fileData sentenceIndex
    | refuse errInvalidRequest "Sentence index out of range"
  let sentenceText := slice fileData start stop
  modifySessions fun sessions =>
    ssCreateSession sessions fd rec.address username sentenceIndex start stop
      fileData sentenceText
  send (.client fd) [str "OK_LOCKED", rec.filename, indexField]
  send (.client fd) [str "OK_CONTENT", sentenceText]

/-- `handle_client_write_lock` -/
def handleClientWriteLock (fd : Nat) (msg : List CString) : Handler Unit := do
  match msg with
  | _ :: username :: filename :: indexField :: _ =>
      let some sentenceIndex := parseInt indexField
        | refuse errInvalidRequest "Invalid sentence index"
      ensure (0 ≤ sentenceIndex)
        (refuse errInvalidRequest "Invalid sentence index")
      modifySessions fun sessions => ssDetachSession sessions fd
      let some rec := ssFindFile (← get).files filename
        | refuse errFileNotFound "File not found"
      lockSentence fd username indexField sentenceIndex rec
  | _ =>
      refuse errInvalidRequest "Missing fields in REQ_WRITE_LOCK"

/-- The sessions after a successful edit of the session of `fd`. -/
def setSentenceWorking
    (sessions : List WriteSession)
    (fd : Nat)
    (joined : CString) : List WriteSession :=
  sessions.map fun session =>
    if session.clientFd = fd then
      { session with sentenceWorking := joined }
    else
      session

/-- `handle_client_write_data` -/
def handleClientWriteData (fd : Nat) (msg : List CString) : Handler Unit := do
  match msg with
  | _ :: indexField :: content :: _ =>
      let some wordIndex := parseInt indexField
        | refuse errInvalidRequest "Invalid word index"
      ensure (0 ≤ wordIndex)
        (refuse errInvalidRequest "Invalid word index")
      let some session := ssFindSession (← get).sessions fd
        | refuse errInvalidRequest "No active WRITE session"
      let some joined :=
          ssApplyWordEdit session.sentenceWorking wordIndex content
        | refuse errInvalidRequest "Failed to apply edit"
      modifySessions fun sessions => setSentenceWorking sessions fd joined
      send (.client fd) [str "OK", str "WRITE_DATA applied"]
  | _ =>
      refuse errInvalidRequest "Missing fields in WRITE_DATA"

/-- `handle_client_etirw`, from the session and its record on. -/
def commitSession
    (now : Int)
    (fd : Nat)
    (session : WriteSession)
    (rec : FileRecord) : Handler Unit := do
  let lockedStart := session.sentenceStart
  let lockedEnd := session.sentenceEnd
  let replacement := session.sentenceWorking
  let some currentSnapshot ← ssReadFileContent rec.filepath
    | refuse errInternalError "Failed to read file"
  ensure (!invalidSentenceBounds currentSnapshot lockedStart lockedEnd)
    (refuse errInternalError "Invalid sentence bounds")
  let newContent := splice currentSnapshot lockedStart lockedEnd replacement
  ensure (← ssWriteFileContent rec.undopath currentSnapshot)
    (refuse errInternalError "Failed to persist undo")
  ensure (← ssWriteFileContent rec.filepath newContent)
    (refuse errInternalError "Failed to write file")
  ssTouchFileMetadata now { rec with undoAvailable := 1 }
    (some session.username) true
  modifySessions fun sessions =>
    ssUpdateActiveSessions sessions rec.address lockedStart
      (lockedEnd - lockedStart) replacement.length
      (etirwSentenceDelta currentSnapshot lockedStart lockedEnd replacement)
      fd
  modifySessions fun sessions => ssDetachSession sessions fd
  send (.client fd) [str "OK_WRITE_DONE"]
  ssSyncMetadataToNs rec

/-- `handle_client_etirw` -/
def handleClientEtirw (now : Int) (fd : Nat) : Handler Unit := do
  let some session := ssFindSession (← get).sessions fd
    | refuse errInvalidRequest "No active WRITE session"
  -- a file with sessions is never deleted, so the record is there
  let some rec := recordAt (← get).files session.file
    | return ()
  commitSession now fd session rec

/-- The end of `client_thread`: the session of a closed connection is aborted. -/
def clientDisconnected (fd : Nat) : Handler Unit :=
  modifySessions fun sessions => ssDetachSession sessions fd

/-- The copy of a checkpoint tag a handler works with. -/
def tagCopy (tag : CString) : CString :=
  trimString (safeStrcpy tag maxTagLength)

/--
The part that `CHECKPOINT`, `REVERT` and `UNDO` share: the record, if the user
may write to it and nobody is writing to it.
-/
def writableIdleRecord (username filename : CString) :
    Handler FileRecord := do
  let some rec := ssFindFile (← get).files filename
    | refuse errFileNotFound "File not found"
  ensure (ssCheckWriteAccess rec username)
    (refuse errPermissionDenied "No write access")
  ensure (!ssFileHasActiveWriters (← get).sessions rec.address)
    (refuse errSentenceLocked "File locked for writing")
  return rec

/-- `ss_prune_oldest_checkpoint`, done when the list is full. -/
def pruneIfFull (rec : FileRecord) : Handler FileRecord := do
  if rec.checkpoints.length ≥ ssMaxCheckpoints then
    match rec.checkpoints with
    | [] =>
        return rec
    | oldest :: others =>
        unlink oldest.filepath
        return { rec with checkpoints := others }
  else
    return rec

/-- `handle_client_checkpoint`, from the record on. -/
def checkpointRecord
    (now : Int)
    (fd : Nat)
    (storagePath username tag : CString)
    (rec : FileRecord) : Handler Unit := do
  ensure (ssFindCheckpoint rec tag).isNone
    (refuse errInvalidRequest "Checkpoint already exists")
  let some ckptPath := checkpointPath storagePath rec now tag
    | refuse errInternalError "Failed to build checkpoint path"
  ensure (← ssCopyFile rec.filepath ckptPath) do
    unlink ckptPath
    refuse errInternalError "Failed to persist checkpoint"
  let pruned ← pruneIfFull rec
  let slot : CheckpointRecord :=
    { tag := safeStrcpy tag maxFilenameLength
      filepath := safeStrcpy ckptPath maxPathLength }
  ssTouchFileMetadata now
    { pruned with checkpoints := pruned.checkpoints ++ [slot] }
    (some username) false
  send (.client fd)
    [ str "OK_CHECKPOINT",
      snprintf 256 (str "Checkpoint '" ++ tag ++ str "' created.") ]

/-- `handle_client_checkpoint` -/
def handleClientCheckpoint
    (now : Int)
    (fd : Nat)
    (msg : List CString) : Handler Unit := do
  match msg with
  | _ :: username :: filename :: tag :: _ =>
      ensure (tagCopy tag ≠ [])
        (refuse errInvalidRequest "Checkpoint tag cannot be empty")
      let ss ← get
      checkpointRecord now fd ss.storagePath username (tagCopy tag)
        (← writableIdleRecord username filename)
  | _ =>
      refuse errInvalidRequest "Missing fields in REQ_CHECKPOINT"

/-- `handle_client_revert`, from the record on. -/
def revertRecord
    (now : Int)
    (fd : Nat)
    (username tag : CString)
    (rec : FileRecord) : Handler Unit := do
  let some ckpt := ssFindCheckpoint rec tag
    | refuse errInvalidRequest "Checkpoint not found"
  ensure (← ssFileExists ckpt.filepath)
    (refuse errInternalError "Checkpoint data missing")
  ensure (← ssCopyFile rec.filepath rec.undopath)
    (refuse errInternalError "Failed to create undo snapshot")
  ensure (← ssCopyFile ckpt.filepath rec.filepath) do
    let _ ← ssCopyFile rec.undopath rec.filepath
    refuse errInternalError "Failed to revert file"
  ssTouchFileMetadata now { rec with undoAvailable := 1 }
    (some username) true
  send (.client fd)
    [ str "OK_REVERT",
      snprintf 256 (str "File reverted to '" ++ tag ++ str "'.") ]

/-- `handle_client_revert` -/
def handleClientRevert
    (now : Int)
    (fd : Nat)
    (msg : List CString) : Handler Unit := do
  match msg with
  | _ :: username :: filename :: tag :: _ =>
      ensure (tagCopy tag ≠ [])
        (refuse errInvalidRequest "Checkpoint tag cannot be empty")
      revertRecord now fd username (tagCopy tag)
        (← writableIdleRecord username filename)
  | _ =>
      refuse errInvalidRequest "Missing fields in REQ_REVERT"

/-- `handle_client_undo`, from the record on. -/
def undoRecord
    (now : Int)
    (fd : Nat)
    (username : CString)
    (rec : FileRecord) : Handler Unit := do
  ensure (rec.undoAvailable ≠ 0 && (← ssFileExists rec.undopath))
    (refuse errNoUndoHistory "No undo available")
  let some undoContent ← ssReadFileContent rec.undopath
    | refuse errInternalError "Failed to read undo data"
  ensure (← ssWriteFileContent rec.filepath undoContent)
    (refuse errInternalError "Failed to restore file")
  ssTouchFileMetadata now { rec with undoAvailable := 0 }
    (some username) true
  send (.client fd) [str "OK_UNDO"]

/-- `handle_client_undo` -/
def handleClientUndo
    (now : Int)
    (fd : Nat)
    (msg : List CString) : Handler Unit := do
  match msg with
  | _ :: username :: filename :: _ =>
      undoRecord now fd username (← writableIdleRecord username filename)
  | _ =>
      refuse errInvalidRequest "Missing fields in REQ_UNDO"

/-! ## Commands of the name server -/

/-- The record `ss_create_file` sets up. -/
def newFileRecord
    (ss : StorageServer)
    (now : Int)
    (filename owner : CString) : FileRecord :=
  { ssInitFileRecord ss.storagePath ss.nextAddress filename with
    owner := safeStrcpy owner maxUsernameLength
    lastAccessUser := safeStrcpy owner maxUsernameLength
    created := now
    modified := now
    lastAccess := now }

/-- `ss_create_file` for a name not in use; false where it returns -1. -/
def addRecord (newRecord : FileRecord) : Handler Bool := do
  let opened ← onDisk (Disk.write newRecord.filepath [])
  if opened = .notOpened then
    return false
  else do
    let _ ← ssWriteMetadata newRecord
    modify fun ss =>
      { ss with
        files := newRecord :: ss.files
        nextAddress := ss.nextAddress + 1 }
    return true

/-- `ss_create_file`; false where it returns -1. -/
def ssCreateFile (now : Int) (filename owner : CString) : Handler Bool := do
  let ss ← get
  if (ssFindFile ss.files filename).isSome then
    return false
  else
    addRecord (newFileRecord ss now filename owner)

/-- The handling of `CREATE_FILE` in `ns_control_loop`. -/
def nsCreateFile (now : Int) (msg : List CString) : Handler Unit := do
  match msg with
  | _ :: filename :: owner :: _ =>
      ensure (validateFilename filename && validateUsername owner)
        (refuse errInvalidRequest "Invalid filename or owner")
      ensure (← ssCreateFile now filename owner)
        (refuse errFileExists "File already exists")
      send .nameServer [str "OK_CREATE", filename]
  | _ =>
      refuse errInvalidRequest "CREATE_FILE missing fields"

/-- What `ss_delete_file` returns. -/
inductive DeleteStatus where
  | deleted
  | notFound
  | locked
  deriving DecidableEq

/-- `ss_delete_file` for a record without writers. -/
def removeRecord (node : FileRecord) : Handler Unit := do
  node.paths.forM unlink
  modify fun ss =>
    { ss with files := ss.files.eraseP fun r => r.address = node.address }

/-- `ss_delete_file` -/
def ssDeleteFile (filename : CString) : Handler DeleteStatus := do
  match ssFindFile (← get).files filename with
  | none =>
      return .notFound
  | some node =>
      if ssFileHasActiveWriters (← get).sessions node.address then
        return .locked
      else do
        removeRecord node
        return .deleted

/-- The handling of `DELETE_FILE` in `ns_control_loop`. -/
def nsDeleteFile (msg : List CString) : Handler Unit := do
  match msg with
  | _ :: filename :: _ =>
      ensure (validateFilename filename)
        (refuse errInvalidRequest "Invalid filename")
      match ← ssDeleteFile filename with
      | .notFound =>
          refuse errFileNotFound "File not found"
      | .locked =>
          refuse errSentenceLocked "File is locked for writing"
      | .deleted =>
          send .nameServer [str "OK_DELETE", filename]
  | _ =>
      refuse errInvalidRequest "DELETE_FILE missing filename"

/-- The record after a rename. -/
def FileRecord.renamed
    (rec : FileRecord)
    (newLogical newFlat newPath newMeta newUndo : CString) : FileRecord :=
  { rec with
    filename := safeStrcpy newLogical maxFilenameLength
    filename_short := length_safeStrcpy_filename newLogical
    physicalName := safeStrcpy newFlat maxFilenameLength
    filepath := safeStrcpy newPath maxPathLength
    metapath := safeStrcpy newMeta maxPathLength
    undopath := safeStrcpy newUndo maxPathLength }

/-- `ss_handle_rename`, from the two content paths on. -/
def renameRecord
    (now : Int)
    (newLogical newFlat currentPath newPath : CString)
    (rec : FileRecord) : Handler Bool := do
  let currentMeta := snprintf maxPathLength (currentPath ++ ssMetaSuffix)
  let newMeta := snprintf maxPathLength (newPath ++ ssMetaSuffix)
  let currentUndo := snprintf maxPathLength (currentPath ++ ssUndoSuffix)
  let newUndo := snprintf maxPathLength (newPath ++ ssUndoSuffix)
  if ← rename currentPath newPath then
    let _ ← rename currentMeta newMeta
    let _ ← rename currentUndo newUndo
    ssTouchFileMetadata now
      (rec.renamed newLogical newFlat newPath newMeta newUndo) none true
    return true
  else
    return false

/-- `ss_handle_rename`; false where it returns -1. -/
def ssHandleRename
    (now : Int)
    (oldLogical newLogical oldFlat newFlat : CString) : Handler Bool := do
  let ss ← get
  let some rec := ssFindFile ss.files oldLogical
    | return false
  let some expectedOldFlat :=
      flattenLogicalPath rec.filename maxFilenameLength
    | return false
  if !strncmpEq expectedOldFlat oldFlat maxFilenameLength then
    return false
  else
    let some currentPath := buildPath ss.storagePath oldFlat
      | return false
    let some newPath := buildPath ss.storagePath newFlat
      | return false
    renameRecord now newLogical newFlat currentPath newPath rec

/-- The handling of `SS_RENAME` in `ns_control_loop`. -/
def nsRename (now : Int) (msg : List CString) : Handler Unit := do
  match msg with
  | _ :: oldLogical :: newLogical :: oldFlat :: newFlat :: _ =>
      ensure (validateFilename oldLogical && validateFilename newLogical)
        (refuse errInvalidRequest "Invalid logical path")
      ensure (← ssHandleRename now oldLogical newLogical oldFlat newFlat)
        (refuse errInternalError "Rename failed")
      send .nameServer [str "OK"]
  | _ =>
      refuse errInvalidRequest "SS_RENAME missing fields"

/-! ## SS_COPY -/

/-- How the connection to the source server of a copy goes. -/
inductive PeerSession where
  | unreachable
  | requestNotSent
  | answers (messages : List (Option (List CString)))

/--
The loop over the peer's messages; the result is the failure, if any.  `none`
is a message that cannot be parsed, and at the end of the list the connection
drops.
-/
def receiveChunks (tempPath : CString) :
    List (Option (List CString)) → Handler (Option Refusal)
  | [] =>
      return some
        ⟨errInternalError, str "Connection dropped during COPY"⟩
  | none :: _ =>
      return some ⟨errInternalError, str "Invalid data from source server"⟩
  | some [] :: _ =>
      return some ⟨errInternalError, str "Invalid data from source server"⟩
  | some (type :: arguments) :: rest =>
      if type = str "ERR" then
        let peerCode :=
          match arguments with
          | code :: _ => atoi code
          | [] => -1
        if peerCode = errFileNotFound then
          return some ⟨errFileNotFound, str "Source file not found"⟩
        else if peerCode = errPermissionDenied then
          return some ⟨errPermissionDenied, str "Source access denied"⟩
        else
          return some
            ⟨errInternalError, str "Source server rejected COPY"⟩
      else if type = str "OK_CONTENT" then
        match arguments with
        | [] :: _ =>
            receiveChunks tempPath rest
        | chunk :: _ => do
            let ended ← onDisk (Disk.append tempPath (rawBytes chunk))
            if ended = .complete then
              receiveChunks tempPath rest
            else
              return some
                ⟨errInternalError, str "Failed to persist stream chunk"⟩
        | [] =>
            receiveChunks tempPath rest
      else if type = str "OK_READ_END" then
        return none
      else
        receiveChunks tempPath rest

/-- The remote branch of `handle_ss_copy`: fill the temporary file. -/
def fetchRemote (peer : PeerSession) (tempPath : CString) :
    Handler (Option Refusal) := do
  match peer with
  | .unreachable =>
      return some ⟨errInternalError, str "Failed to reach source server"⟩
  | .requestNotSent =>
      return some
        ⟨errInternalError, str "Failed to request source content"⟩
  | .answers messages =>
      let opened ← onDisk (Disk.write tempPath [])
      if opened = .notOpened then
        return some
          ⟨errInternalError, str "Failed to create temporary file"⟩
      else do
        let failure ← receiveChunks tempPath messages
        ensure failure.isNone (unlink tempPath)
        return failure

/-- The local branch of `handle_ss_copy`. -/
def cloneLocal (srcRec : FileRecord) (tempPath : CString) :
    Handler (Option Refusal) := do
  if ← ssCopyFile srcRec.filepath tempPath then
    return none
  else
    return some
      ⟨errInternalError, str "Failed to clone local source file"⟩

/-- The scratch path of a copy into a record. -/
def copyTempPath (destRec : FileRecord) : CString :=
  snprintf maxPathLength (destRec.filepath ++ str ".copytmp")

/-- Fill the temporary file; the result is the failure, if any. -/
def fetchSource
    (peer : PeerSession)
    (srcRec : Option FileRecord)
    (tempPath : CString) : Handler (Option Refusal) :=
  match srcRec with
  | some rec => cloneLocal rec tempPath
  | none => fetchRemote peer tempPath

/-- `handle_ss_copy`, from the idle records on. -/
def copyInto
    (now : Int)
    (peer : PeerSession)
    (username : CString)
    (srcRec : Option FileRecord)
    (destRec : FileRecord) : Handler Unit := do
  unlink (copyTempPath destRec)
  match ← fetchSource peer srcRec (copyTempPath destRec) with
  | some refusal =>
      unlink (copyTempPath destRec)
      throw refusal
  | none =>
      ensure (← rename (copyTempPath destRec) destRec.filepath) do
        unlink (copyTempPath destRec)
        refuse errInternalError "Failed to finalize destination file"
      ssTouchFileMetadata now destRec (some username) true
      ssSyncMetadataToNs destRec
      send .nameServer [str "OK", str "Copy successful"]

/-- The checks of `handle_ss_copy` on the records it finds. -/
def idleCopyRecords
    (sourceIsLocal : Bool)
    (srcFilename destFilename : CString) :
    Handler (Option FileRecord × FileRecord) := do
  let ss ← get
  let srcRec :=
    if sourceIsLocal then ssFindFile ss.files srcFilename else none
  let some destRec := ssFindFile ss.files destFilename
    | refuse errFileNotFound "Destination file not found"
  ensure (!(sourceIsLocal && srcRec.isNone))
    (refuse errFileNotFound "Source file not found")
  ensure (!ssFileHasActiveWriters ss.sessions destRec.address)
    (refuse errSentenceLocked "Destination locked for writing")
  ensure (!srcRec.any fun rec =>
      ssFileHasActiveWriters ss.sessions rec.address)
    (refuse errSentenceLocked "Source locked for writing")
  return (srcRec, destRec)

/-- `handle_ss_copy` -/
def handleSsCopy
    (now : Int)
    (peer : PeerSession)
    (msg : List CString) : Handler Unit := do
  match msg with
  | _ :: destFilename :: srcIp :: srcPortField :: srcFilename ::
      username :: _ =>
      ensure (validateFilename destFilename && validateFilename srcFilename &&
          validateUsername username)
        (refuse errInvalidRequest "Invalid COPY request payload")
      let sourceIsLocal := srcIp = str "LOCAL"
      ensure (sourceIsLocal || (parseInt srcPortField).any (0 < ·))
        (refuse errInvalidRequest "Invalid source endpoint")
      let (srcRec, destRec) ←
        idleCopyRecords sourceIsLocal srcFilename destFilename
      copyInto now peer username srcRec destRec
  | _ =>
      refuse errInvalidRequest "SS_COPY missing fields"

/-! ## Steps -/

/-- What reaches the storage server, and from whom. -/
inductive SsCommand where
  | writeLock (fd : Nat) (msg : List CString)
  | writeData (fd : Nat) (msg : List CString)
  | etirw (fd : Nat)
  | disconnected (fd : Nat)
  | undo (fd : Nat) (msg : List CString)
  | checkpoint (fd : Nat) (msg : List CString)
  | revert (fd : Nat) (msg : List CString)
  | createFile (msg : List CString)
  | deleteFile (msg : List CString)
  | ssRename (oldLogical newLogical : CString)
  | ssCopy (peer : PeerSession) (msg : List CString)

/-- A command and the time at which it is handled. -/
structure SsEvent where
  now : Int
  command : SsCommand

/-- The `SS_RENAME` message of the name server, which flattens both names. -/
def ssRenameMessage (oldLogical newLogical : CString) : List CString :=
  [ str "SS_RENAME", oldLogical, newLogical, physicalNameOf oldLogical,
    physicalNameOf newLogical ]

/-- The dispatch of `client_thread` and `ns_control_loop`. -/
def SsEvent.handler (event : SsEvent) : Handler Unit :=
  match event.command with
  | .writeLock fd msg => handleClientWriteLock fd msg
  | .writeData fd msg => handleClientWriteData fd msg
  | .etirw fd => handleClientEtirw event.now fd
  | .disconnected fd => clientDisconnected fd
  | .undo fd msg => handleClientUndo event.now fd msg
  | .checkpoint fd msg => handleClientCheckpoint event.now fd msg
  | .revert fd msg => handleClientRevert event.now fd msg
  | .createFile msg => nsCreateFile event.now msg
  | .deleteFile msg => nsDeleteFile msg
  | .ssRename oldLogical newLogical =>
      nsRename event.now (ssRenameMessage oldLogical newLogical)
  | .ssCopy peer msg => handleSsCopy event.now peer msg

/-- Who is told when the command is refused. -/
def SsCommand.sender : SsCommand → Peer
  | writeLock fd _ => .client fd
  | writeData fd _ => .client fd
  | etirw fd => .client fd
  | disconnected fd => .client fd
  | undo fd _ => .client fd
  | checkpoint fd _ => .client fd
  | revert fd _ => .client fd
  | createFile _ => .nameServer
  | deleteFile _ => .nameServer
  | ssRename _ _ => .nameServer
  | ssCopy _ _ => .nameServer

/-- Handle one event; a refusal is answered with an error message. -/
def ssStep (ss : StorageServer) (event : SsEvent) : StorageServer :=
  match event.handler ss with
  | .ok _ after =>
      after
  | .error refusal after =>
      { after with
        sent := after.sent ++ [⟨event.command.sender, refusal.fields⟩] }

/-- Whether the event is handled without an error reply. -/
def Accepted (ss : StorageServer) (event : SsEvent) : Bool :=
  match event.handler ss with
  | .ok _ _ => true
  | .error _ _ => false

end DistributedDocs
