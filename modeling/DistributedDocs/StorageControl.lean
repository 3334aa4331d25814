import DistributedDocs.NameServerCommands
import DistributedDocs.StorageRecords

namespace DistributedDocs

/-!
# The requests of the name server

`ns_control_loop` hands every request to its handler and sends one reply, which
is the last message of the handler or an error.  Besides the requests that
change the list of records these are the two on access lists and the two that
only read.
-/

/-- `SS_MAX_USERS_PER_FILE` -/
def ssMaxUsersPerFile : Nat :=
  128

/-! ## Access lists -/

/-- `ss_acl_contains` -/
def ssAclContains (entries : List CString) (username : CString) : Bool :=
  fileAclContains entries username

/--
`ss_acl_add`: whether the user is new and the entries after, or none where it
returns -1.
-/
def ssAclAdd (entries : List CString) (username : CString) :
    Option (Bool × List CString) :=
  if ssAclContains entries username then some (false, entries)
  else if ssMaxUsersPerFile ≤ entries.length then none
  else some (true, entries ++ [safeStrcpy username maxUsernameLength])

/-- `ss_acl_remove`; false where it returns 0. -/
def ssAclRemove (entries : List CString) (username : CString) :
    Bool × List CString :=
  fileAclRemove entries username

/-- Whether a permission token has the letter, in either case. -/
def asksFor (letter : Char) (permToken : CString) : Bool :=
  permToken.any fun c => tolower c = CChar.ofChar letter

/-- The lists of a record after an attempt to add a user to some of them. -/
structure AclAddition where
  done : Bool
  addedRead : Bool
  addedWrite : Bool
  readUsers : List CString
  writeUsers : List CString

/-- The two calls of `ss_acl_add` in the handling of `SS_ADDACCESS`. -/
def addToLists
    (rec : FileRecord)
    (username : CString)
    (wantRead wantWrite : Bool) : AclAddition :=
  let hadRead := ssAclContains rec.readUsers username
  let hadWrite := ssAclContains rec.writeUsers username
  let reading : AclAddition :=
    if wantRead && !hadRead then
      match ssAclAdd rec.readUsers username with
      | some (added, users) => ⟨true, added, false, users, rec.writeUsers⟩
      | none => ⟨false, false, false, rec.readUsers, rec.writeUsers⟩
    else
      ⟨true, false, false, rec.readUsers, rec.writeUsers⟩
  if reading.done && (wantWrite && !hadWrite) then
    match ssAclAdd rec.writeUsers username with
    | some (added, users) =>
        { reading with addedWrite := added, writeUsers := users }
    | none => { reading with done := false }
  else
    reading

/-- Store a record that has been changed in place. -/
def putRecord (rec : FileRecord) : Handler Unit :=
  modify fun ss => { ss with files := storeRecord rec ss.files }

/-- `SS_ADDACCESS`, from the record on. -/
def addAccessTo
    (filename username : CString)
    (wantRead wantWrite : Bool)
    (rec : FileRecord) : Handler Unit := do
  let addition := addToLists rec username wantRead wantWrite
  let changed :=
    { rec with
      readUsers := addition.readUsers
      writeUsers := addition.writeUsers }
  putRecord changed
  let described ←
    if addition.done && (addition.addedRead || addition.addedWrite) then
      ssWriteMetadata changed
    else
      pure true
  if addition.done && described then
    send .nameServer [str "OK_ACCESS_CHANGED", filename]
  else do
    putRecord
      { changed with
        readUsers :=
          if addition.addedRead then
            (ssAclRemove addition.readUsers username).2
          else
            addition.readUsers
        writeUsers :=
          if addition.addedWrite then
            (ssAclRemove addition.writeUsers username).2
          else
            addition.writeUsers }
    refuse errInternalError "Failed to update ACL metadata"

/-- The handling of `SS_ADDACCESS` in `ns_control_loop`. -/
def nsAddAccess (msg : List CString) : Handler Unit := do
  match msg with
  | _ :: filename :: username :: permToken :: _ =>
      let some rec := ssFindFile (← get).files filename
        | refuse errFileNotFound "File not found"
      let wantRead := asksFor 'r' permToken
      let wantWrite := asksFor 'w' permToken
      ensure (wantRead || wantWrite)
        (refuse errInvalidRequest "Invalid permission token")
      addAccessTo filename username wantRead wantWrite rec
  | _ =>
      refuse errInvalidRequest "ADDACCESS missing fields"

/-- The entries after `ss_acl_add`, as a caller that ignores its result sees them. -/
def ssAclReAdd (entries : List CString) (username : CString) :
    List CString :=
  match ssAclAdd entries username with
  | some (_, users) => users
  | none => entries

/-- `SS_REMACCESS`, from the record on. -/
def removeAccessFrom
    (filename username : CString)
    (rec : FileRecord) : Handler Unit := do
  let (removedRead, readers) := ssAclRemove rec.readUsers username
  let (removedWrite, writers) := ssAclRemove rec.writeUsers username
  let changed := { rec with readUsers := readers, writeUsers := writers }
  putRecord changed
  ensure (removedRead || removedWrite)
    (refuse errUserNotFound "User not present in ACL")
  ensure (← ssWriteMetadata changed) do
    putRecord
      { changed with
        readUsers :=
          if removedRead then ssAclReAdd readers username else readers
        writeUsers :=
          if removedWrite then ssAclReAdd writers username else writers }
    refuse errInternalError "Failed to persist ACL metadata"
  send .nameServer [str "OK_ACCESS_CHANGED", filename]

/-- The handling of `SS_REMACCESS` in `ns_control_loop`. -/
def nsRemAccess (msg : List CString) : Handler Unit := do
  match msg with
  | _ :: filename :: username :: _ =>
      let some rec := ssFindFile (← get).files filename
        | refuse errFileNotFound "File not found"
      removeAccessFrom filename username rec
  | _ =>
      refuse errInvalidRequest "REMACCESS missing fields"

/-! ## Requests that only read -/

/-- The handling of `GET_STATS` in `ns_control_loop`. -/
def nsGetStats (msg : List CString) : Handler Unit := do
  match msg with
  | _ :: filename :: _ =>
      let some rec := ssFindFile (← get).files filename
        | refuse errFileNotFound "Stats target missing"
      let size ← getFileSize rec.filepath
      let content ← ssReadFileContent rec.filepath
      let (words, chars) :=
        match content with
        | some text => (countWords text, countChars text)
        | none => (0, 0)
      send .nameServer
        [ str "OK_STATS", rec.filename, rec.owner, decimal size,
          decimal words, decimal chars, decimal rec.created,
          decimal rec.modified, decimal rec.lastAccess, rec.lastAccessUser ]
  | _ =>
      refuse errInvalidRequest "GET_STATS missing filename"

/-- The handling of `GET_CONTENT` in `ns_control_loop`. -/
def nsGetContent (msg : List CString) : Handler Unit := do
  match msg with
  | _ :: filename :: _ =>
      let some rec := ssFindFile (← get).files filename
        | refuse errFileNotFound "Content file missing"
      let some content ← ssReadFileContent rec.filepath
        | refuse errInternalError "Failed to read file"
      send .nameServer [str "OK_CONTENT", rec.filename, content]
  | _ =>
      refuse errInvalidRequest "GET_CONTENT missing filename"

/-! ## The loop body -/

/-- The dispatch of `ns_control_loop`; an unknown command has no handler. -/
def controlHandler
    (now : Int)
    (peer : PeerSession)
    (msg : List CString) : Option (Handler Unit) :=
  match msg with
  | [] => none
  | command :: _ =>
      if command = str "CREATE_FILE" then some (nsCreateFile now msg)
      else if command = str "DELETE_FILE" then some (nsDeleteFile msg)
      else if command = str "GET_STATS" then some (nsGetStats msg)
      else if command = str "GET_CONTENT" then some (nsGetContent msg)
      else if command = str "SS_RENAME" then some (nsRename now msg)
      else if command = str "SS_ADDACCESS" then some (nsAddAccess msg)
      else if command = str "SS_REMACCESS" then some (nsRemAccess msg)
      else if command = str "SS_COPY" then some (handleSsCopy now peer msg)
      else none

/-- The reply of a handler, and the server after it has been sent. -/
def replyOf :
    EStateM.Result Refusal StorageServer Unit → SsAnswer × StorageServer
  | .ok _ after =>
      match after.sent.getLast? with
      | some reply => (.message reply.fields, after)
      | none => (.failed (-5), after)
  | .error refusal after =>
      (.message refusal.fields,
        { after with sent := after.sent ++ [⟨.nameServer, refusal.fields⟩] })

/--
The reply to a request, and the server after it.  To an unknown request there
is none: the name server waits until the connection ends.
-/
def answerRequest
    (now : Int)
    (peer : PeerSession)
    (msg : List CString)
    (ss : StorageServer) : SsAnswer × StorageServer :=
  match controlHandler now peer msg with
  | some handler => replyOf (handler ss)
  | none => (.failed (-5), ss)

end DistributedDocs
