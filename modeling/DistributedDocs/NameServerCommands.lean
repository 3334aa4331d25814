import DistributedDocs.NameServer
import DistributedDocs.ProgramRules
import DistributedDocs.StorageServer

namespace DistributedDocs

/-!
# Commands of the name server

The command handlers of `name_server.c` as programs.  What the storage servers
are is left open: a world, and what it answers to a request.  Each command is
one atomic step, `username` is the user of the connection and `now` the clock.
-/

/-- `ERR_USER_NOT_FOUND` -/
def errUserNotFound : Int := 102

/-- How `storage_server_send_and_wait` ends, and what the reply parses to. -/
inductive SsAnswer where
  | failed (status : Int)
  | unparsable
  | message (fields : List CString)
  deriving DecidableEq

/-- What the storage server at an address answers, and what it does. -/
abbrev Backend (World : Type) :=
  Nat → List CString → World → SsAnswer × World

/-- The name server and the world of its storage servers. -/
structure NsState (World : Type) where
  ns : NameServer
  world : World

/-- A command, which may reply with an error and leave early. -/
abbrev NsHandler (World : Type) := EStateM Refusal (NsState World)

section Primitives

variable {World : Type}

/-- Leave with an error reply. -/
def nsRefuse {α : Type} (code : Int) (text : String) : NsHandler World α :=
  throw ⟨code, str text⟩

/-- Go on if the condition holds, else leave with an error reply. -/
def nsEnsure (condition : Bool) (code : Int) (text : String) :
    NsHandler World Unit :=
  if condition then pure () else nsRefuse code text

/-- Look at the registry. -/
def readNs {α : Type} (look : NameServer → α) : NsHandler World α := do
  return look (← get).ns

/-- Run an operation on the registry. -/
def onNs {α : Type} (operation : NameServer → α × NameServer) :
    NsHandler World α :=
  modifyGet fun state =>
    ((operation state.ns).1, { state with ns := (operation state.ns).2 })

/-- Change the registry. -/
def changeNs (change : NameServer → NameServer) : NsHandler World Unit :=
  modify fun state => { state with ns := change state.ns }

/-- `storage_server_send_and_wait` -/
def sendAndWait
    (backend : Backend World)
    (address : Nat)
    (fields : List CString) : NsHandler World SsAnswer :=
  modifyGet fun state =>
    ((backend address fields state.world).1,
      { state with world := (backend address fields state.world).2 })

/-- `file_lookup_locked`: the position and the entry there. -/
def lookupMetadata (filename : CString) :
    NsHandler World (Option (Nat × FileMetadata)) := do
  match ← onNs (fileLookupLocked filename) with
  | some index => readNs fun ns => ns.files[index]?.map fun file => (index, file)
  | none => return none

end Primitives

/-- Change the entry at a position of `files[]`. -/
def changeFile
    (index : Nat)
    (change : FileMetadata → FileMetadata)
    (ns : NameServer) : NameServer :=
  { ns with files := ns.files.modify index change }

/-- Change the storage server at an address. -/
def changeServer
    (address : Nat)
    (change : StorageServerInfo → StorageServerInfo)
    (ns : NameServer) : NameServer :=
  { ns with
    storageServers :=
      ns.storageServers.map fun ss =>
        if ss.address = address then change ss else ss }

/-- The first connected storage server with this client endpoint. -/
def serverAt (ip : CString) (port : Int) (ns : NameServer) :
    Option StorageServerInfo :=
  ns.storageServers.find? fun candidate =>
    (candidate.isAlive && 0 ≤ candidate.sockfd) &&
      (strncmpEq candidate.clientIp ip maxIpLength &&
        candidate.clientPort = port)

/-- The storage server an entry is homed on, if it is connected. -/
def homeOf (file : FileMetadata) (ns : NameServer) :
    Option StorageServerInfo :=
  serverAt file.ssIp file.ssPort ns

/-- The reply of `protocol_build_ok`. -/
def okReply (detail : CString) : List CString :=
  [str "OK", detail]

/-- `protocol_get_error_code` of an error message. -/
def errorCode : List CString → Int
  | _ :: code :: _ => atoi code
  | _ => -1

/-- The text the callers take from an error message. -/
def errorDetail : List CString → CString
  | _ :: _ :: detail :: _ => detail
  | _ => str "Storage server error."

/-- The text for a status of `storage_server_send_and_wait`. -/
def statusDetail (status : Int) : CString :=
  if status = -2 then str "Storage server unavailable."
  else if status = -3 then str "Failed to encode storage server command."
  else if status = -4 then str "Failed to send command to storage server."
  else if status = -5 then str "Storage server disconnected."
  else if status = -6 then str "Incomplete response from storage server."
  else str "Storage server communication failure."

/-- The error an answer stands for, when `expected` is the reply hoped for. -/
def answerFailure
    (expected malformed unexpected : String) :
    SsAnswer → Option Refusal
  | .failed status => some ⟨errInternalError, statusDetail status⟩
  | .unparsable => some ⟨errInternalError, str malformed⟩
  | .message [] => some ⟨errInternalError, str malformed⟩
  | .message (type :: arguments) =>
      if type = str "ERR" then
        some
          ⟨errorCode (type :: arguments), errorDetail (type :: arguments)⟩
      else if type = str expected then none
      else some ⟨errInternalError, str unexpected⟩

/-! ## New entries -/

/-- An entry all of whose fields are zero, but for its name and its owner. -/
def blankMetadata (filename owner : CString) : FileMetadata where
  filename := safeStrcpy filename maxFilenameLength
  filename_short := length_safeStrcpy_filename filename
  owner := safeStrcpy owner maxUsernameLength
  ssIp := []
  ssPort := 0
  size := 0
  wordCount := 0
  charCount := 0
  isDirectory := false
  created := 0
  modified := 0
  lastAccess := 0
  lastAccessUser := []
  lastModifiedUser := []
  readAccessUsers := []
  writeAccessUsers := []
  document := 0

/-- Index, count and cache a new entry at the end of `files[]`. -/
def registerFile
    (filename : CString)
    (file : FileMetadata)
    (ns : NameServer) : NameServer :=
  let newIndex := ns.files.length
  let indexed := fileIndexInsert filename newIndex ns
  fileCacheStore filename newIndex
    { indexed with
      files := indexed.files ++ [{ file with document := ns.nextDocument }]
      nextDocument := ns.nextDocument + 1 }

/-- The fields `CREATE` and `CREATEFOLDER` stamp alike. -/
def stampedMetadata
    (now : Int)
    (username : CString)
    (file : FileMetadata) : FileMetadata :=
  { file with
    created := now
    modified := now
    lastAccess := now
    lastAccessUser := safeStrcpy username maxUsernameLength
    lastModifiedUser := safeStrcpy username maxUsernameLength }

/-- The loads are not negative; `ns_select_storage_server_balanced` sees to it. -/
def clampLoads (ss : StorageServerInfo) : StorageServerInfo :=
  if ss.isAlive then
    { ss with
      totalFiles := max 0 ss.totalFiles
      totalBytes := max 0 ss.totalBytes }
  else
    ss

/-- Whether a candidate takes the place of the best server so far. -/
def lighterThan (candidate best : StorageServerInfo) : Bool :=
  candidate.totalBytes < best.totalBytes ||
    (candidate.totalBytes = best.totalBytes &&
      candidate.totalFiles < best.totalFiles)

/-- The loop of `ns_select_storage_server_balanced` over the positions. -/
def lightestOf
    (servers : List StorageServerInfo)
    (best : Option (Nat × StorageServerInfo)) :
    List Nat → Option (Nat × StorageServerInfo)
  | [] =>
      best
  | position :: rest =>
      match servers[position]? with
      | some candidate =>
          if candidate.isAlive &&
              best.all (fun chosen => lighterThan candidate chosen.2) then
            lightestOf servers (some (position, candidate)) rest
          else
            lightestOf servers best rest
      | none => lightestOf servers best rest

/--
`(index + offset) % count` in `int`.  C leaves a sum above `INT_MAX` undefined:
here it wraps, and there is no server at a place before the array.
-/
def roundRobinPlace (index count offset : Nat) : Option Nat :=
  let place := (toInt (index + offset)).tmod count
  if place < 0 then none else some place.toNat

/-- `ns_select_storage_server_balanced` -/
def nsSelectStorageServerBalanced (ns : NameServer) :
    Option StorageServerInfo × NameServer :=
  let count := ns.storageServers.length
  let clamped := ns.storageServers.map clampLoads
  let order :=
    (List.range count).filterMap
      (roundRobinPlace ns.ssRoundRobinIndex count)
  match lightestOf clamped none order with
  | some (position, best) =>
      (some best,
        { ns with
          storageServers := clamped
          ssRoundRobinIndex := (position + 1) % count })
  | none => (none, { ns with storageServers := clamped })

/-- The metadata `CREATE` records. -/
def newMetadata
    (now : Int)
    (username filename : CString)
    (target : StorageServerInfo) : FileMetadata :=
  stampedMetadata now username
    { blankMetadata filename username with
      ssIp := safeStrcpy target.clientIp maxIpLength
      ssPort := target.clientPort }

section Commands

variable {World : Type} (backend : Backend World)

/-- The checks of `CREATE` under the lock, and the server it goes to. -/
def createTarget (filename : CString) :
    NsHandler World StorageServerInfo := do
  nsEnsure (← readNs fun ns => decide (ns.files.length < nsMaxFiles))
    errInternalError "Maximum file limit reached."
  nsEnsure (← lookupMetadata filename).isNone
    errFileExists "File already exists."
  nsEnsure (← readNs fun ns => decide (ns.storageServers ≠ []))
    errInternalError "No storage servers available."
  let some target ← onNs nsSelectStorageServerBalanced
    | nsRefuse errInternalError "No alive storage servers available."
  return target

/-- Ask the storage server for the file; the result is the failure, if any. -/
def createOnStorage
    (target : StorageServerInfo)
    (username filename : CString) : NsHandler World (Option Refusal) := do
  if target.sockfd < 0 then
    return some
      ⟨errInternalError, str "Storage server socket unavailable."⟩
  else
    let answer ←
      sendAndWait backend target.address
        [str "CREATE_FILE", filename, username]
    return answerFailure "OK_CREATE" "Failed to parse SS response."
      "Unexpected SS response." answer

/-- `CREATE` -/
def handleCreate
    (now : Int)
    (username : CString)
    (msg : List CString) : NsHandler World (List CString) := do
  match msg with
  | _ :: filename :: _ =>
      nsEnsure (validateFilename filename)
        errInvalidRequest "Invalid filename requested for CREATE."
      nsEnsure (username ≠ []) errInternalError "Client identity unknown."
      let target ← createTarget filename
      changeNs
        (registerFile filename (newMetadata now username filename target))
      match ← createOnStorage backend target username filename with
      | some refusal =>
          let _ ← onNs (removeFileMetadataLocked filename)
          throw refusal
      | none =>
          changeNs (changeServer target.address fun ss =>
            { ss with totalFiles := ss.totalFiles + 1 })
          return okReply
            (str "File '" ++ filename ++ str "' created successfully.")
  | _ =>
      nsRefuse errInvalidRequest "Filename missing in CREATE."

/-! ### Folders -/

/-- `ns_split_parent_child` -/
def nsSplitParentChild (path : CString) : Option (CString × CString) :=
  let (child, before) :=
    path.reverse.span fun c => c ≠ CChar.ofChar '/'
  match before with
  | [] => some ([], safeStrcpy path maxFilenameLength)
  | _ :: parent =>
      if parent.length + 1 > maxFilenameLength then none
      else some (parent.reverse, safeStrcpy child.reverse maxFilenameLength)

/-- `ns_validate_logical_path` -/
def nsValidateLogicalPath (path : CString) : Bool :=
  (validateFilename path &&
      (path.head? ≠ some (CChar.ofChar '/') &&
        path.getLast? ≠ some (CChar.ofChar '/'))) &&
    (!decide (str "//" <:+: path) &&
      (strtok '/' (safeStrcpy path maxFilenameLength)).all fun segment =>
        segment ≠ str "." && segment ≠ str "..")

/-- `ns_is_descendant_path` -/
def nsIsDescendantPath (candidate ancestor : CString) : Bool :=
  decide (ancestor = []) ||
    (decide (candidate.take ancestor.length = ancestor) &&
      (match candidate.drop ancestor.length with
        | [] => true
        | c :: _ => c = CChar.ofChar '/'))

/-- `ns_normalize_destination`; the root folder is the empty path. -/
def nsNormalizeDestination (input : CString) : Option CString :=
  if input = str "." ∨ input = str "/" then some []
  else if nsValidateLogicalPath input then
    some (safeStrcpy input maxFilenameLength)
  else none

/-- The entry of a folder, unless it is missing or not a folder. -/
def ensureFolder (folder : CString) (missing notFolder : String) :
    NsHandler World Unit := do
  let some (_, folderMeta) ← lookupMetadata folder
    | nsRefuse errFileNotFound missing
  nsEnsure folderMeta.isDirectory errInvalidRequest notFolder

/-- The metadata `CREATEFOLDER` records. -/
def newFolder (now : Int) (username path : CString) : FileMetadata :=
  stampedMetadata now username
    { blankMetadata path username with isDirectory := true }

/-- `CREATEFOLDER` -/
def handleCreateFolder
    (now : Int)
    (username : CString)
    (msg : List CString) : NsHandler World (List CString) := do
  match msg with
  | _ :: path :: _ =>
      nsEnsure (nsValidateLogicalPath path)
        errInvalidRequest "Invalid path format."
      nsEnsure (username ≠ []) errInternalError "Client identity unknown."
      nsEnsure (← readNs fun ns => decide (ns.files.length < nsMaxFiles))
        errInternalError "Maximum file limit reached."
      nsEnsure (← lookupMetadata path).isNone
        errFileExists "Path already exists."
      let some (parentPath, _) := nsSplitParentChild path
        | nsRefuse errInvalidRequest "Unable to resolve parent folder."
      if parentPath ≠ [] then
        ensureFolder parentPath "Parent folder does not exist."
          "Parent path is not a folder."
      changeNs (registerFile path (newFolder now username path))
      return okReply (str "Folder created.")
  | _ =>
      nsRefuse errInvalidRequest "Usage: CREATEFOLDER <path>"

/-! ### Moving -/

/-- `MovePlanEntry`; the storage server is the address of its structure. -/
structure MovePlanEntry where
  oldPath : CString
  newPath : CString
  isDirectory : Bool
  ss : Option Nat
  oldFlat : CString
  newFlat : CString
  deriving DecidableEq

/-- Whether a name lies strictly below a folder. -/
def isBelow (folder name : CString) : Bool :=
  decide (name.take folder.length = folder) &&
    decide ((name.drop folder.length).head? = some (CChar.ofChar '/'))

/-- Whether `MOVE` and `DELETE` take an entry along. -/
def takenAlong (path : CString) (isDirectory : Bool) (name : CString) :
    Bool :=
  decide (name = path) || (isDirectory && isBelow path name)

/-- The path an entry moves to, unless it is too long. -/
def movedPath (srcPath finalRoot name : CString) : Option CString :=
  if name = srcPath then some (safeStrcpy finalRoot maxFilenameLength)
  else
    let newPath := finalRoot ++ name.drop srcPath.length
    if newPath.length ≥ maxFilenameLength then none else some newPath

/-- The storage server part of a plan entry. -/
def planRename
    (file : FileMetadata)
    (newPath : CString) : NsHandler World MovePlanEntry := do
  if file.isDirectory then
    return ⟨file.filename, newPath, true, none, [], []⟩
  else
    let some ss ← readNs (homeOf file)
      | nsRefuse errInternalError "Storage server unavailable for move."
    let some oldFlat := flattenLogicalPath file.filename maxFilenameLength
      | nsRefuse errInternalError "Failed to derive storage filenames."
    let some newFlat := flattenLogicalPath newPath maxFilenameLength
      | nsRefuse errInternalError "Failed to derive storage filenames."
    return ⟨file.filename, newPath, false, some ss.address, oldFlat, newFlat⟩

/-- The plan for one entry that is taken along. -/
def planMoveEntry
    (username srcPath finalRoot : CString)
    (file : FileMetadata) : NsHandler World MovePlanEntry := do
  nsEnsure (strncmpEq file.owner username maxUsernameLength)
    errPermissionDenied "Move requires ownership of all contained entries."
  let some newPath := movedPath srcPath finalRoot file.filename
    | nsRefuse errInvalidRequest "Destination path too long."
  nsEnsure (nsValidateLogicalPath newPath)
    errInvalidRequest "Destination path is invalid."
  let collision ← lookupMetadata newPath
  nsEnsure (collision.all fun found => found.2.filename = file.filename)
    errFileExists "Destination already contains an entry with that name."
  planRename file newPath

/-- The plan for all entries that are taken along. -/
def planMoveEntries
    (username srcPath finalRoot : CString) :
    List FileMetadata → NsHandler World (List MovePlanEntry)
  | [] =>
      return []
  | file :: rest => do
      let entry ← planMoveEntry username srcPath finalRoot file
      return entry :: (← planMoveEntries username srcPath finalRoot rest)

/-- The path the source itself moves to, unless it is too long. -/
def finalRootPath (destination baseName : CString) : Option CString :=
  if destination = [] then some (safeStrcpy baseName maxFilenameLength)
  else
    let path := destination ++ str "/" ++ baseName
    if path.length ≥ maxFilenameLength then none else some path

/-- The planning of `MOVE`. -/
def planMove (username srcPath destination : CString) :
    NsHandler World (List MovePlanEntry) := do
  let some (_, srcMeta) ← lookupMetadata srcPath
    | nsRefuse errFileNotFound "Source path not found."
  nsEnsure (strncmpEq srcMeta.owner username maxUsernameLength)
    errPermissionDenied "Only the owner may move this entry."
  if destination ≠ [] then
    ensureFolder destination "Destination folder not found."
      "Destination is not a folder."
  let some (_, baseName) := nsSplitParentChild srcPath
    | nsRefuse errInvalidRequest "Unable to resolve source path."
  let some finalRoot := finalRootPath destination baseName
    | nsRefuse errInvalidRequest "Destination path too long."
  nsEnsure (finalRoot ≠ srcPath)
    errInvalidRequest "Source and destination are identical."
  nsEnsure (!((srcMeta.isDirectory && destination ≠ []) &&
      nsIsDescendantPath destination srcPath))
    errInvalidRequest "Cannot move a folder into its descendant."
  let taken ← readNs fun ns =>
    ns.files.filter fun file =>
      takenAlong srcPath srcMeta.isDirectory file.filename
  let plan ← planMoveEntries username srcPath finalRoot taken
  nsEnsure (plan ≠ []) errInternalError "Move plan was empty."
  return plan

/-- The error the answer to an `SS_RENAME` stands for; code 0 is none. -/
def renameFailure : SsAnswer → Option Refusal
  | .failed _ =>
      some ⟨errInternalError, str "Storage server rename failed."⟩
  | .unparsable =>
      some ⟨errInternalError, str "Malformed storage server response."⟩
  | .message [] =>
      some ⟨errInternalError, str "Malformed storage server response."⟩
  | .message (type :: arguments) =>
      if type = str "ERR" then
        if errorCode (type :: arguments) = 0 then none
        else
          some
            ⟨errorCode (type :: arguments), errorDetail (type :: arguments)⟩
      else if type = str "OK" then none
      else
        some ⟨errInternalError, str "Unexpected storage server response."⟩

/-- The `SS_RENAME` request for a plan entry. -/
def renameRequest (entry : MovePlanEntry) : List CString :=
  [str "SS_RENAME", entry.oldPath, entry.newPath, entry.oldFlat,
    entry.newFlat]

/-- The `SS_RENAME` request that takes a rename back. -/
def rollbackRequest (entry : MovePlanEntry) : List CString :=
  [str "SS_RENAME", entry.newPath, entry.oldPath, entry.newFlat,
    entry.oldFlat]

/-- The rollback of `MOVE`: the last rename first, whatever is answered. -/
def rollbackRenames : List MovePlanEntry → NsHandler World Unit
  | [] =>
      return ()
  | entry :: rest => do
      if let some address := entry.ss then
        let _ ← sendAndWait backend address (rollbackRequest entry)
      rollbackRenames rest

/-- The renames of `MOVE`; `done` are those made so far, the last one first. -/
def renameOnStorage (done : List MovePlanEntry) :
    List MovePlanEntry → NsHandler World Unit
  | [] =>
      return ()
  | entry :: rest =>
      match entry.ss with
      | none => renameOnStorage done rest
      | some address => do
          let answer ← sendAndWait backend address (renameRequest entry)
          match renameFailure answer with
          | some refusal =>
              rollbackRenames backend done
              throw refusal
          | none => renameOnStorage (entry :: done) rest

/-- The new name and the stamps `MOVE` gives to an entry. -/
def renamedMetadata
    (now : Int)
    (username newPath : CString)
    (file : FileMetadata) : FileMetadata :=
  { file with
    filename := safeStrcpy newPath maxFilenameLength
    filename_short := length_safeStrcpy_filename newPath
    modified := now
    lastAccess := now
    lastModifiedUser := safeStrcpy username maxUsernameLength
    lastAccessUser := safeStrcpy username maxUsernameLength }

/-- The metadata application of `MOVE` for one plan entry. -/
def applyMoveEntry
    (now : Int)
    (username : CString)
    (ns : NameServer)
    (entry : MovePlanEntry) : NameServer :=
  match fileLookupLocked entry.oldPath ns with
  | (none, looked) => looked
  | (some index, looked) =>
      let unlinked := fileIndexRemoveEntry entry.oldPath looked
      let renamed :=
        changeFile index (renamedMetadata now username entry.newPath) unlinked
      let indexed :=
        fileIndexInsert (safeStrcpy entry.newPath maxFilenameLength) index
          renamed
      fileCacheRename entry.oldPath entry.newPath index indexed

/-- The metadata application of `MOVE`. -/
def applyMove
    (now : Int)
    (username : CString)
    (plan : List MovePlanEntry)
    (ns : NameServer) : NameServer :=
  plan.foldl (applyMoveEntry now username) ns

/-- `MOVE` -/
def handleMove
    (now : Int)
    (username : CString)
    (msg : List CString) : NsHandler World (List CString) := do
  match msg with
  | _ :: srcPath :: destFolder :: _ =>
      nsEnsure (nsValidateLogicalPath srcPath)
        errInvalidRequest "Invalid source path."
      nsEnsure (username ≠ []) errInternalError "Client identity unknown."
      let some destination := nsNormalizeDestination destFolder
        | nsRefuse errInvalidRequest "Invalid destination folder."
      let plan ← planMove username srcPath destination
      renameOnStorage backend [] plan
      changeNs (applyMove now username plan)
      return okReply (str "Move completed.")
  | _ =>
      nsRefuse errInvalidRequest "Usage: MOVE <source> <destination_folder>"

/-! ### Deleting -/

/-- `DeletePlanEntry`; the storage server is the address of its structure. -/
structure DeletePlanEntry where
  path : CString
  isDirectory : Bool
  ss : Option Nat
  size : Int
  deriving DecidableEq

/-- The plan for one entry that is deleted. -/
def planDeleteEntry (username : CString) (file : FileMetadata) :
    NsHandler World DeletePlanEntry := do
  nsEnsure (strncmpEq file.owner username maxUsernameLength)
    errPermissionDenied
    "Delete requires ownership of all contained entries."
  if file.isDirectory then
    return ⟨file.filename, true, none, max 0 file.size⟩
  else
    let some ss ← readNs (homeOf file)
      | nsRefuse errInternalError "Storage server unavailable for delete."
    return ⟨file.filename, false, some ss.address, max 0 file.size⟩

/-- The plan for all entries that are deleted. -/
def planDeleteEntries (username : CString) :
    List FileMetadata → NsHandler World (List DeletePlanEntry)
  | [] =>
      return []
  | file :: rest => do
      let entry ← planDeleteEntry username file
      return entry :: (← planDeleteEntries username rest)

/-- The planning of `DELETE`. -/
def planDelete (username targetPath : CString) :
    NsHandler World (List DeletePlanEntry) := do
  let some (_, targetMeta) ← lookupMetadata targetPath
    | nsRefuse errFileNotFound "Target path not found."
  nsEnsure (strncmpEq targetMeta.owner username maxUsernameLength)
    errPermissionDenied "Only the owner may delete this entry."
  let taken ← readNs fun ns =>
    ns.files.filter fun file =>
      takenAlong targetPath targetMeta.isDirectory file.filename
  let plan ← planDeleteEntries username taken
  nsEnsure (plan ≠ []) errInternalError "Delete plan was empty."
  return plan

/-- The error of a `DELETE` whose storage server did not delete. -/
def deleteFailure (answer : SsAnswer) : Option Refusal :=
  (answerFailure "OK_DELETE" "Failed to parse storage server response."
    "Unexpected storage server response." answer).map fun refusal =>
      if refusal.code = 0 then { refusal with code := errInternalError }
      else refusal

/-- The `DELETE_FILE` requests of `DELETE`, up to the first that fails. -/
def deleteOnStorage : List DeletePlanEntry → NsHandler World Unit
  | [] =>
      return ()
  | entry :: rest =>
      match entry.ss with
      | none => deleteOnStorage rest
      | some address => do
          let answer ←
            sendAndWait backend address [str "DELETE_FILE", entry.path]
          match deleteFailure answer with
          | some refusal => throw refusal
          | none => deleteOnStorage rest

/-- The load of a storage server that has lost a file. -/
def unloaded (size : Int) (ss : StorageServerInfo) : StorageServerInfo :=
  { ss with
    totalFiles := if ss.totalFiles > 0 then ss.totalFiles - 1 else ss.totalFiles
    totalBytes :=
      if size > 0 then
        if ss.totalBytes ≥ size then ss.totalBytes - size else 0
      else
        ss.totalBytes }

/-- `DELETE` cancels what is pending for a name. -/
def cancelRequests (path : CString) (requests : List AccessRequest) :
    List AccessRequest :=
  requests.map fun req =>
    if req.isPending && req.filename = path then
      { req with isPending := false }
    else
      req

/-- The metadata application of `DELETE` for one plan entry. -/
def applyDeleteEntry (ns : NameServer) (entry : DeletePlanEntry) :
    NameServer :=
  match removeFileMetadataLocked entry.path ns with
  | (false, left) => left
  | (true, left) =>
      let relieved :=
        match entry.ss with
        | some address => changeServer address (unloaded entry.size) left
        | none => left
      { relieved with
        accessRequests := cancelRequests entry.path relieved.accessRequests }

/-- The longest paths first, later entries before earlier ones. -/
def removalOrder (plan : List DeletePlanEntry) : List DeletePlanEntry :=
  plan.reverse.insertionSort fun first second =>
    second.path.length ≤ first.path.length

/-- The metadata application of `DELETE`. -/
def applyDelete (plan : List DeletePlanEntry) (ns : NameServer) :
    NameServer :=
  (removalOrder plan).foldl applyDeleteEntry ns

/-- `DELETE` -/
def handleDelete
    (username : CString)
    (msg : List CString) : NsHandler World (List CString) := do
  match msg with
  | _ :: targetPath :: _ =>
      nsEnsure (nsValidateLogicalPath targetPath)
        errInvalidRequest "Invalid path requested for DELETE."
      nsEnsure (username ≠ []) errInternalError "Client identity unknown."
      let plan ← planDelete username targetPath
      deleteOnStorage backend plan
      changeNs (applyDelete plan)
      if plan.length = 1 then
        return okReply (str "Entry '" ++ targetPath ++ str "' deleted.")
      else
        return okReply
          (str "Deleted " ++ decimal plan.length ++ str " entries under '" ++
            targetPath ++ str "'.")
  | _ =>
      nsRefuse errInvalidRequest "Usage: DELETE <path>"

/-! ### Copying and locating -/

/-- The entries of a `COPY` that passes its checks. -/
def copyEntries (username srcName destName : CString) :
    NsHandler World ((Nat × FileMetadata) × FileMetadata) := do
  let srcFile ← lookupMetadata srcName
  let destFile ← lookupMetadata destName
  let some (srcIdx, src) := srcFile
    | nsRefuse errFileNotFound "Source file not found"
  let some (_, dest) := destFile
    | nsRefuse errFileNotFound "Destination file not found (create it first)"
  nsEnsure (fileHasReadAccess src username)
    errPermissionDenied "No read access to source"
  nsEnsure (fileHasWriteAccess dest username)
    errPermissionDenied "No write access to destination"
  return ((srcIdx, src), dest)

/-- The access stamp of a file that has been used. -/
def accessedMetadata
    (now : Int)
    (username : CString)
    (file : FileMetadata) : FileMetadata :=
  { file with
    lastAccess := now
    lastAccessUser := safeStrcpy username maxUsernameLength }

/-- Whether a parsed reply is no error. -/
def isOkMessage : List CString → Bool
  | type :: _ => type ≠ str "ERR"
  | [] => false

/-- `COPY`; the storage server's reply is handed on. -/
def handleCopy
    (now : Int)
    (username : CString)
    (msg : List CString) : NsHandler World (List CString) := do
  match msg with
  | _ :: srcName :: destName :: _ =>
      nsEnsure (validateFilename srcName && validateFilename destName)
        errInvalidRequest "Invalid filename(s) for COPY."
      nsEnsure (username ≠ []) errInternalError "Client identity unknown."
      let ((srcIdx, src), dest) ← copyEntries username srcName destName
      let some destSs ← readNs (homeOf dest)
        | nsRefuse errInternalError "Destination storage server offline"
      let some srcSs ← readNs (homeOf src)
        | nsRefuse errInternalError "Source storage server offline"
      let (sourceIp, sourcePort) :=
        if srcSs.address = destSs.address then (str "LOCAL", str "0")
        else (srcSs.clientIp, decimal srcSs.clientPort)
      let answer ←
        sendAndWait backend destSs.address
          [str "SS_COPY", destName, sourceIp, sourcePort, srcName, username]
      match answer with
      | .failed _ =>
          nsRefuse errInternalError "Copy failed on Storage Server"
      | .unparsable => return []
      | .message fields =>
          if isOkMessage fields then
            changeNs (changeFile srcIdx (accessedMetadata now username))
          return fields
  | _ =>
      nsRefuse errInvalidRequest "Usage: COPY <source> <dest>"

/-- The access an operation of `REQ_LOC` needs; none if it is unknown. -/
def locationAccess (operation : CString) (file : FileMetadata)
    (username : CString) : Option Bool :=
  let isOneOf (names : List String) : Bool :=
    names.any fun name => strcasecmpEq operation (str name)
  if operation = [] ∨ isOneOf ["READ", "STREAM", "VIEWCHECKPOINT",
      "LISTCHECKPOINTS"] = true then
    some (fileHasReadAccess file username)
  else if isOneOf ["WRITE", "CHECKPOINT", "REVERT"] then
    some (fileHasWriteAccess file username)
  else
    none

/-- The stamps of `REQ_LOC`. -/
def locatedMetadata
    (now : Int)
    (username operation : CString)
    (file : FileMetadata) : FileMetadata :=
  let accessed := accessedMetadata now username file
  if ["WRITE", "UNDO", "CHECKPOINT", "REVERT"].any fun name =>
      strcasecmpEq operation (str name) then
    { accessed with
      lastModifiedUser := safeStrcpy username maxUsernameLength
      modified := now }
  else
    accessed

/-- `REQ_LOC`, for an operation on a file. -/
def locateFile
    (now : Int)
    (username operation filename : CString) :
    NsHandler World (List CString) := do
  nsEnsure (validateFilename filename)
    errInvalidRequest "Invalid filename requested."
  nsEnsure (username ≠ []) errInternalError "Client identity unknown."
  let some (index, file) ← lookupMetadata filename
    | nsRefuse errFileNotFound "Requested file not found."
  let some haveAccess := locationAccess operation file username
    | nsRefuse errInvalidRequest "Unsupported location request operation."
  nsEnsure haveAccess errPermissionDenied "User lacks required access."
  changeNs fun ns =>
    fileCacheStore filename index
      (changeFile index (locatedMetadata now username operation) ns)
  return [str "OK_LOC", file.filename, file.ssIp, decimal file.ssPort]

/-- `REQ_LOC` -/
def handleReqLoc
    (now : Int)
    (username : CString)
    (msg : List CString) : NsHandler World (List CString) :=
  match msg with
  | _ :: operation :: filename :: _ =>
      locateFile now username operation filename
  | [_, filename] => locateFile now username (str "READ") filename
  | _ =>
      nsRefuse errInvalidRequest "Filename missing in location request."

/-- Commands that only look a file up: `INFO`, `VIEWFOLDER` and `EXEC`. -/
def handleLookup (filename : CString) : NsHandler World (List CString) := do
  let some (_, file) ← lookupMetadata filename
    | nsRefuse errFileNotFound "File not found for INFO."
  return [str "OK_INFO_START", file.filename]

/-! ### Access -/

/-- `REQUESTACCESS` -/
def handleRequestAccess
    (username : CString)
    (msg : List CString) : NsHandler World (List CString) := do
  match msg with
  | _ :: filename :: perm :: _ =>
      nsEnsure (validateFilename filename) errInvalidRequest
        "Invalid filename."
      let some (grantRead, grantWrite) := parsePermissionFlags perm
        | nsRefuse errInvalidRequest "Permission must be R or W."
      let some (_, file) ← lookupMetadata filename
        | nsRefuse errFileNotFound "File not found."
      nsEnsure
        (← readNs fun ns =>
          decide (ns.accessRequests.length < nsMaxAccessRequests))
        errInternalError "Request queue is full."
      changeNs fun ns =>
        { ns with
          accessRequests :=
            ns.accessRequests ++
              [{ id := ns.nextRequestId
                 filename := safeStrcpy filename maxFilenameLength
                 fromUser := safeStrcpy username maxUsernameLength
                 toUser := safeStrcpy file.owner maxUsernameLength
                 grantRead := grantRead
                 grantWrite := grantWrite
                 isPending := true
                 document := file.document }]
          nextRequestId := ns.nextRequestId + 1 }
      return okReply (str "Access request submitted.")
  | _ =>
      nsRefuse errInvalidRequest "Usage: REQUESTACCESS <filename> <R|W>"

/-- Change the access request at a position. -/
def changeRequest
    (position : Nat)
    (change : AccessRequest → AccessRequest)
    (ns : NameServer) : NameServer :=
  { ns with accessRequests := ns.accessRequests.modify position change }

/-- The permission token of an `SS_ADDACCESS` request. -/
def permToken (grantRead grantWrite : Bool) : CString :=
  (if grantRead then str "R" else []) ++ if grantWrite then str "W" else []

/-- The storage server part of `APPROVEACCESS`; the result is the failure. -/
def approveOnStorage (file : FileMetadata) (req : AccessRequest) :
    NsHandler World (Option Refusal) := do
  let some target ← readNs (homeOf file)
    | return some
        ⟨errInternalError,
          str "Storage server is offline. Access not granted."⟩
  let token := permToken req.grantRead req.grantWrite
  let answer ←
    sendAndWait backend target.address
      [str "SS_ADDACCESS", req.filename, req.fromUser,
        if token = [] then str "R" else token]
  match answer with
  | .failed _ =>
      return some
        ⟨errInternalError, str "Storage server failed to update ACL."⟩
  | .unparsable =>
      return some
        ⟨errInternalError, str "Storage server rejected ACL change."⟩
  | .message (type :: _) =>
      if type = str "ERR" then
        return some
          ⟨errInternalError, str "Storage server rejected ACL change."⟩
      else
        return none
  | .message [] => return none

/-- `APPROVEACCESS` -/
def handleApproveAccess
    (username : CString)
    (msg : List CString) : NsHandler World (List CString) := do
  match msg with
  | _ :: idField :: _ =>
      let reqId := atoi idField
      let found ← readNs fun ns =>
        (ns.accessRequests.findIdx? fun req => req.id = reqId).bind
          fun position => ns.accessRequests[position]?.map (position, ·)
      let some (position, req) := found
        | nsRefuse errInvalidRequest
            "Invalid request ID or not file owner."
      nsEnsure (req.isPending && req.toUser = username)
        errInvalidRequest "Invalid request ID or not file owner."
      let some (index, file) ← lookupMetadata req.filename
        | nsRefuse errFileNotFound
            "File for this request no longer exists."
      changeNs
        (changeFile index fun entry =>
          (fileAddAccess entry req.fromUser req.grantRead
            req.grantWrite).2)
      changeNs
        (changeRequest position fun entry =>
          { entry with isPending := false })
      match ← approveOnStorage backend file req with
      | some refusal =>
          changeNs
            (changeFile index fun entry =>
              (fileRemoveAccess entry req.fromUser).2)
          changeNs
            (changeRequest position fun entry =>
              { entry with isPending := true })
          throw refusal
      | none => return okReply (str "Access approved and saved.")
  | _ =>
      nsRefuse errInvalidRequest "Usage: APPROVEACCESS <request_id>"

/-- `REJECTACCESS` -/
def handleRejectAccess
    (username : CString)
    (msg : List CString) : NsHandler World (List CString) := do
  match msg with
  | _ :: idField :: _ =>
      let reqId := atoi idField
      let found ← readNs fun ns =>
        ns.accessRequests.findIdx? fun req =>
          (req.id = reqId && req.isPending) && req.toUser = username
      let some position := found
        | nsRefuse errInvalidRequest
            "Invalid or non-pending request ID."
      changeNs
        (changeRequest position fun req => { req with isPending := false })
      return okReply (str "Request rejected.")
  | _ =>
      nsRefuse errInvalidRequest "Usage: REJECTACCESS <request_id>"

/-- The storage server part of `ADDACCESS` and `REMACCESS`. -/
def accessOnStorage (file : FileMetadata) (request : List CString) :
    NsHandler World (Option Refusal) := do
  let some target ← readNs (homeOf file)
    | return some ⟨errInternalError, str "Storage server is offline."⟩
  let answer ← sendAndWait backend target.address request
  return answerFailure "OK_ACCESS_CHANGED" "Failed to parse SS response."
    "Unexpected SS response." answer

/-- `ADDACCESS` -/
def handleAddAccess
    (username : CString)
    (msg : List CString) : NsHandler World (List CString) := do
  match msg with
  | _ :: filename :: targetUser :: permission :: _ =>
      nsEnsure (validateFilename filename && validateUsername targetUser)
        errInvalidRequest "Invalid filename or username for ADDACCESS."
      let some (grantRead, grantWrite) := parsePermissionFlags permission
        | nsRefuse errInvalidRequest
            "Invalid permission token for ADDACCESS."
      nsEnsure (username ≠ []) errInternalError "Client identity unknown."
      let some (index, file) ← lookupMetadata filename
        | nsRefuse errFileNotFound "File not found for ADDACCESS."
      nsEnsure (strncmpEq file.owner username maxUsernameLength)
        errPermissionDenied "Only the owner may modify access."
      if strncmpEq file.owner targetUser maxUsernameLength then
        return okReply
          (str "Owner '" ++ targetUser ++ str "' already has full access.")
      else
        let (added, _) := fileAddAccess file targetUser grantRead grantWrite
        changeNs
          (changeFile index fun entry =>
            (fileAddAccess entry targetUser grantRead grantWrite).2)
        nsEnsure added errInternalError "Failed to update ACL."
        match ←
            accessOnStorage backend file
              [str "SS_ADDACCESS", filename, targetUser,
                permToken grantRead grantWrite] with
        | some refusal =>
            changeNs
              (changeFile index fun entry =>
                (fileRemoveAccess entry targetUser).2)
            throw refusal
        | none =>
            return okReply
              (str "Access granted to " ++ targetUser ++ str " (" ++
                permission ++ str ").")
  | _ =>
      nsRefuse errInvalidRequest "Missing parameters for ADDACCESS."

/-- `REMACCESS` -/
def handleRemAccess
    (username : CString)
    (msg : List CString) : NsHandler World (List CString) := do
  match msg with
  | _ :: filename :: targetUser :: _ =>
      nsEnsure (validateFilename filename && validateUsername targetUser)
        errInvalidRequest "Invalid filename or username for REMACCESS."
      nsEnsure (username ≠ []) errInternalError "Client identity unknown."
      let some (index, file) ← lookupMetadata filename
        | nsRefuse errFileNotFound "File not found for REMACCESS."
      nsEnsure (strncmpEq file.owner username maxUsernameLength)
        errPermissionDenied "Only the owner may modify access."
      let hadRead := fileAclContains file.readAccessUsers targetUser
      let hadWrite := fileAclContains file.writeAccessUsers targetUser
      nsEnsure (fileRemoveAccess file targetUser).1
        errUserNotFound "User had no explicit access."
      changeNs
        (changeFile index fun entry => (fileRemoveAccess entry targetUser).2)
      match ←
          accessOnStorage backend file
            [str "SS_REMACCESS", filename, targetUser] with
      | some refusal =>
          changeNs
            (changeFile index fun entry =>
              (fileAddAccess entry targetUser hadRead hadWrite).2)
          throw refusal
      | none =>
          return okReply
            (str "Access revoked for " ++ targetUser ++ str ".")
  | _ =>
      nsRefuse errInvalidRequest "Missing parameters for REMACCESS."

end Commands

/-! ## Messages of storage servers -/

/-- The fields of `SS_HAS_FILE`, with the optional ones at their defaults. -/
structure HasFile where
  filename : CString
  owner : CString
  readAclCsv : CString
  writeAclCsv : CString
  size : Int
  words : Int
  chars : Int
  deriving DecidableEq

/-- `atoll` of a field; 0 where the field is missing. -/
def countField (field : Option CString) : Int :=
  atoll (field.getD [])

/-- The parts of an `SS_HAS_FILE` message that has enough fields. -/
def hasFileOf (msg : List CString) : Option HasFile :=
  match msg with
  | _ :: filename :: owner :: readAcl :: writeAcl :: counts =>
      some ⟨filename, owner, readAcl, writeAcl, countField counts[0]?,
        countField counts[1]?, countField counts[2]?⟩
  | _ => none

/-- What `SS_HAS_FILE` records in an entry that exists. -/
def updatedMetadata
    (now : Int)
    (ss : StorageServerInfo)
    (msg : HasFile)
    (file : FileMetadata) : FileMetadata :=
  { file with
    owner :=
      if msg.owner = [] then file.owner
      else safeStrcpy msg.owner maxUsernameLength
    ssIp := safeStrcpy ss.clientIp maxIpLength
    ssPort := ss.clientPort
    modified := now
    size := msg.size
    wordCount := msg.words
    charCount := msg.chars
    readAccessUsers := fileAclParseCsv msg.readAclCsv
    writeAccessUsers := fileAclParseCsv msg.writeAclCsv }

/-- What `SS_HAS_FILE` records in a new entry. -/
def reportedMetadata
    (now : Int)
    (ss : StorageServerInfo)
    (msg : HasFile) : FileMetadata :=
  { updatedMetadata now ss msg (blankMetadata msg.filename []) with
    created := now }

/-- The loop body for `SS_HAS_FILE` in the file sync phase of `run_ss_loop`. -/
def applyHasFile
    (now : Int)
    (ss : StorageServerInfo)
    (msg : List CString)
    (ns : NameServer) : Except Refusal NameServer :=
  match hasFileOf msg with
  | none =>
      .error ⟨errInvalidRequest, str "Incomplete SS_HAS_FILE message."⟩
  | some hasFile =>
      if !validateFilename hasFile.filename then
        .error
          ⟨errInvalidRequest,
            str "Invalid filename received from storage server."⟩
      else if hasFile.owner ≠ [] && !validateUsername hasFile.owner then
        .error
          ⟨errInvalidRequest,
            str "Invalid owner received from storage server."⟩
      else
        match
          (fileIndexFind hasFile.filename ns).filter fun index =>
            index < ns.files.length with
        | some index =>
            .ok (fileCacheStore hasFile.filename index
              (changeFile index (updatedMetadata now ss hasFile) ns))
        | none =>
            if nsMaxFiles ≤ ns.files.length then
              .error
                ⟨errInternalError, str "Maximum file limit reached."⟩
            else
              .ok (registerFile hasFile.filename
                (reportedMetadata now ss hasFile) ns)

/-- The statistics `WRITE_COMPLETE` records. -/
def countedMetadata
    (now size words chars : Int)
    (file : FileMetadata) : FileMetadata :=
  { file with
    size := size
    wordCount := words
    charCount := chars
    modified := now }

/-- The load of a storage server one of whose files has a new size. -/
def resized (delta : Int) (ss : StorageServerInfo) : StorageServerInfo :=
  { ss with totalBytes := max 0 (toLongLong (ss.totalBytes + delta)) }

/-- The loop body for `WRITE_COMPLETE` in the main phase of `run_ss_loop`. -/
def applyWriteComplete
    (now : Int)
    (ss : StorageServerInfo)
    (msg : List CString)
    (ns : NameServer) : NameServer :=
  match msg with
  | _ :: filename :: size :: words :: chars :: _ =>
      let newSize := atoll size
      match
        (fileIndexFind filename ns).bind fun index =>
          ns.files[index]?.map fun file => (index, file) with
      | some (index, file) =>
          let counted :=
            fileCacheStore filename index
              (changeFile index
                (countedMetadata now newSize (atoll words) (atoll chars))
                ns)
          if strncmpEq file.ssIp ss.clientIp maxIpLength &&
              file.ssPort = ss.clientPort then
            changeServer ss.address
              (resized (toLongLong (newSize - file.size))) counted
          else
            counted
      | none => ns
  | _ => ns

/-- `ns_recalculate_server_load_locked`, at `SS_FILES_DONE`. -/
def nsRecalculateServerLoad (address : Nat) (ns : NameServer) : NameServer :=
  changeServer address
    (fun ss =>
      let homed :=
        ns.files.filter fun file =>
          !file.isDirectory &&
            (strncmpEq file.ssIp ss.clientIp maxIpLength &&
              file.ssPort = ss.clientPort)
      { ss with
        totalFiles := homed.length
        totalBytes :=
          max 0 ((homed.map fun file => max 0 file.size).foldl
            (fun bytes size => toLongLong (bytes + size)) 0) })
    ns

end DistributedDocs
