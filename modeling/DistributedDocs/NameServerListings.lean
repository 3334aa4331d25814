import DistributedDocs.ClientSessions
import DistributedDocs.FolderTests
import DistributedDocs.MetadataDurability
import DistributedDocs.NameServerDatabase
import DistributedDocs.RegistryFields
import DistributedDocs.RequestMailbox

namespace DistributedDocs

/-!
# Commands that reply with a stream

`LIST_USERS`, `VIEW`, `INFO`, `EXEC` and `LISTREQUESTS` of `run_client_loop`
reply with several messages, the last of which ends the stream.  What they
list is what the other commands then let the same user do.
-/

/-- What the machine of the name server does for it. -/
structure Machine where
  formatTime : Int → CString
  popen : CString → Option RawBytes

/-! ## The streams -/

/-- `LIST_USERS` -/
def listUsers (clients : List ClientInfo) : List (List CString) :=
  (clients.map fun client =>
      [str "OK_LIST",
        snprintf (maxUsernameLength + 32)
          (client.username ++ str " [" ++
            str (if client.isConnected then "Online" else "Offline") ++
              str "]")]) ++
    [[str "OK_LIST_END"]]

/-- The flags of `VIEW`: all entries, and details; none if one is unknown. -/
def parseViewFlags : Bool → Bool → CString → Option (Bool × Bool)
  | requestAll, requestDetails, [] =>
      some (requestAll, requestDetails)
  | requestAll, requestDetails, c :: rest =>
      if (str "- \t").contains c then
        parseViewFlags requestAll requestDetails rest
      else if (str "aA").contains c then
        parseViewFlags true requestDetails rest
      else if (str "lL").contains c then
        parseViewFlags requestAll true rest
      else
        none

/-- The text of a time, or `N/A` if it was never set. -/
def timeText (machine : Machine) (time : Int) : CString :=
  if time > 0 then machine.formatTime time else str "N/A"

/-- The message of `VIEW` for an entry. -/
def viewRow
    (machine : Machine)
    (requestDetails : Bool)
    (file : FileMetadata) : List CString :=
  if requestDetails then
    [str "OK_VIEW_L", file.filename, file.owner,
      snprintf 32 (decimal file.wordCount),
      snprintf 32 (decimal file.charCount),
      snprintf 64 (timeText machine file.created),
      snprintf 64 (timeText machine file.modified)]
  else
    [str "OK_VIEW_L", file.filename]

/-- Whether `VIEW` without `-a` shows an entry; it repeats the checks. -/
def viewShows (username : CString) (file : FileMetadata) : Bool :=
  if strncmpEq file.owner username maxUsernameLength then true
  else if fileAclContains file.readAccessUsers username then true
  else if fileAclContains file.writeAccessUsers username then true
  else false

section Streams

variable {World : Type}

/-- `VIEW` -/
def handleView
    (machine : Machine)
    (username : CString)
    (msg : List CString) : NsHandler World (List (List CString)) := do
  let some (requestAll, requestDetails) :=
      parseViewFlags false false (msg[1]?.getD [])
    | nsRefuse errInvalidRequest "Unsupported VIEW flag."
  nsEnsure (username ≠ []) errInternalError "Client identity unknown."
  let shown ← readNs fun ns =>
    ns.files.filter fun file => requestAll || viewShows username file
  return shown.map (viewRow machine requestDetails) ++ [[str "OK_VIEW_END"]]

/-- A text, or `N/A` if it is empty. -/
def orNone (text : CString) : CString :=
  if text = [] then str "N/A" else text

/-- `safe_strcat` -/
def safeStrcat (dest source : CString) (size : Nat) : CString :=
  if dest.length ≥ size - 1 then dest
  else dest ++ source.take (size - dest.length - 1)

/-- `acl_append_token`; none stands for a list with `is_first` still set. -/
def aclAppendToken (buffer : Option CString) (token : CString) :
    Option CString :=
  if token = [] then buffer
  else
    match buffer with
    | none => some (safeStrcpy token maxFieldSize)
    | some text =>
        some
          (safeStrcat (safeStrcat text (str ", ") maxFieldSize) token
            maxFieldSize)

/-- The users of a list as `INFO` prints them, the owner first. -/
def aclText (owner : CString) (users : List CString) : CString :=
  let others :=
    users.filter fun user => !strncmpEq user owner maxUsernameLength
  ((owner :: others).foldl aclAppendToken none).getD (str "None")

/-- The lines of `INFO`, as the buffer `line` holds them. -/
def infoLines (machine : Machine) (file : FileMetadata) : List CString :=
  [str "Owner: " ++ orNone file.owner,
    str "Size: " ++ decimal (max 0 file.size) ++ str " bytes",
    str "Words: " ++ decimal file.wordCount,
    str "Chars: " ++ decimal file.charCount,
    str "Created: " ++ safeStrcpy (timeText machine file.created) 64,
    str "--> Last Modified: " ++
      safeStrcpy (timeText machine file.modified) 64 ++ str " by " ++
      orNone file.lastModifiedUser,
    str "--> Last Accessed: " ++
      safeStrcpy (timeText machine file.lastAccess) 64 ++ str " by " ++
      orNone file.lastAccessUser,
    str "Access Rights: Read=[" ++
      aclText file.owner file.readAccessUsers ++ str "]; Write=[" ++
      aclText file.owner file.writeAccessUsers ++ str "]"].map
    (snprintf maxFieldSize)

/-- The messages of `INFO` about an entry; each line is sent with `send_info_line`. -/
def infoMessages (machine : Machine) (file : FileMetadata) :
    List (List CString) :=
  [str "OK_INFO_START", file.filename] ::
    ((infoLines machine file).map fun line => [str "INFO_LINE", orNone line]) ++
      [[str "OK_INFO_END"]]

/-- `INFO` -/
def handleInfo
    (machine : Machine)
    (username : CString)
    (msg : List CString) : NsHandler World (List (List CString)) := do
  match msg with
  | _ :: filename :: _ =>
      nsEnsure (validateFilename filename)
        errInvalidRequest "Invalid filename requested for INFO."
      nsEnsure (username ≠ []) errInternalError "Client identity unknown."
      let some (_, file) ← lookupMetadata filename
        | nsRefuse errFileNotFound "File not found for INFO."
      nsEnsure (fileHasReadAccess file username)
        errPermissionDenied "User lacks read access for INFO."
      return infoMessages machine file
  | _ =>
      nsRefuse errInvalidRequest "Filename missing in INFO."

/-- `ERR_EXEC_FAILED` -/
def errExecFailed : Int := 504

/-- The lines `fgets` takes from the pipe of `EXEC`, trimmed. -/
def execLines (output : RawBytes) : List CString :=
  (boundedLines (fun byte => byte = 10) (maxFieldSize - 1) output).map
    fun piece => trimString (cString piece)

/-- `EXEC` -/
def handleExecStream
    (backend : Backend World)
    (machine : Machine)
    (now : Int)
    (username : CString)
    (msg : List CString) : NsHandler World (List (List CString)) := do
  match msg with
  | _ :: filename :: _ =>
      let file ← execStart now username filename
      let content ← execContent backend file
      let some output := machine.popen content
        | nsRefuse errExecFailed "Failed to execute command on server."
      return [str "OK_EXEC_START"] ::
        ((execLines output).map fun line => [str "EXEC_OUT", line]) ++
          [[str "OK_EXEC_END"]]
  | _ =>
      nsRefuse errInvalidRequest "Filename missing in EXEC."

/-- How `LISTREQUESTS` writes what is asked for. -/
def permText (req : AccessRequest) : CString :=
  if req.grantWrite && req.grantRead then str "Read & Write"
  else if req.grantWrite then str "Write"
  else str "Read"

/-- The message of `LISTREQUESTS` for a request. -/
def requestRow (req : AccessRequest) : List CString :=
  [str "OK_REQUEST_LIST", snprintf 16 (decimal req.id), req.filename,
    req.fromUser, permText req]

/-- The requests a user has to decide. -/
def requestsFor (username : CString) (ns : NameServer) :
    List AccessRequest :=
  ns.accessRequests.filter fun req =>
    req.isPending && req.toUser = username

/-- `LISTREQUESTS` -/
def handleListRequests (username : CString) :
    NsHandler World (List (List CString)) := do
  let requests ← readNs (requestsFor username)
  return requests.map requestRow ++ [[str "OK_REQUEST_LIST_END"]]

end Streams

/-! ## Names that are listed -/

/-- No condition on what the outside brings in. -/
def anyFields : FieldRules where
  charOk _ := True
  userOk _ := True
  serverOk _ _ := True
  timeOk _ := True
  countOk _ := True

/-- The commands give valid names only. -/
theorem survive_validName :
    Survive anyFields
      (fun file => validateFilename file.filename = true)
      (fun _ => True) where
  slash := trivial
  validUser _ _ := trivial
  named _ _ _ _ := trivial
  relabelled _ _ valid := valid
  created _ _ _ _ _ _ _ valid _ := validateFilename_copied valid
  folder _ _ _ _ _ _ valid :=
    validateFilename_copied (validateFilename_of_path valid)
  renamed _ _ _ _ _ _ _ valid _ :=
    validateFilename_copied (validateFilename_of_path valid)
  accessed _ _ _ _ _ valid := valid
  located now username operation file _ _ valid := by
    rw [filename_locatedMetadata]
    exact valid
  granted file user grantRead grantWrite valid _ := by
    rw [filename_fileAddAccess]
    exact valid
  revoked _ _ valid := valid
  updated _ _ _ _ _ _ _ _ valid := valid
  reported _ _ msg _ _ _ recorded := by
    simp only [isRecorded, Bool.and_eq_true] at recorded
    exact validateFilename_copied recorded.1
  counted _ _ _ _ _ _ _ _ _ valid := valid
  requested _ _ _ _ _ _ _ _ _ _ := trivial
  requester _ _ _ _ := trivial

section Reachable

variable
  {World : Type}
  (backend : Backend World)
  (world : World)
  (actions : List (NsAction World))

/-- Every name in the table is one the commands accept. -/
theorem validNames_reachable :
    ∀ file ∈ (runFrom (nsStep backend) ⟨nsInit, world⟩ actions).ns.files,
      validateFilename file.filename = true := by
  have allowed : ∀ action ∈ actions, anyFields.Allows action := by
    intro action _
    cases action with
    | command now username command =>
        exact ⟨trivial, trivial, fun _ _ _ _ => trivial⟩
    | hasFile now ss msg =>
        exact ⟨trivial, trivial,
          fun _ _ => ⟨fun _ _ => trivial, trivial, trivial, trivial⟩⟩
    | filesDone address => trivial
    | writeComplete now ss msg => exact ⟨trivial, fun _ _ => trivial⟩
    | servers storageServers => exact fun _ _ => trivial
    | storage world => trivial
  exact (fieldsHold_reachable survive_validName backend world allowed).entries

end Reachable

/-! ## What a user may read -/

/-- There is an entry of the name that the user may read. -/
def Readable (ns : NameServer) (username filename : CString) : Prop :=
  ∃ file ∈ ns.files,
    file.filename = filename ∧ fileHasReadAccess file username = true

/-- `VIEW` repeats the checks of `file_has_read_access`. -/
theorem viewShows_eq (username : CString) (file : FileMetadata) :
    viewShows username file = fileHasReadAccess file username := by
  unfold viewShows fileHasReadAccess
  cases strncmpEq file.owner username maxUsernameLength <;>
    cases fileAclContains file.readAccessUsers username <;>
      cases fileAclContains file.writeAccessUsers username <;> rfl

section Readers

variable
  {World : Type}
  {α : Type}
  {start : NsState World}
  {username filename : CString}

theorem completes_changeNs (change : NameServer → NameServer) :
    Completes (changeNs change : NsHandler World Unit) :=
  fun state => ⟨(), state.onRegistry change, rfl⟩

/-- `nsEnsure`, with the refusal as a whole. -/
def checked (condition : Bool) (refusal : Refusal) : NsHandler World Unit :=
  if condition then pure () else throw refusal

/-- What the commands that read have in common; each has its own refusals. -/
def withReadable
    (username filename : CString)
    (invalidName unknownUser missing denied : Refusal)
    (next : Nat → FileMetadata → NsHandler World α) : NsHandler World α := do
  checked (validateFilename filename) invalidName
  checked (username ≠ []) unknownUser
  let some (index, file) ← lookupMetadata filename
    | throw missing
  checked (fileHasReadAccess file username) denied
  next index file

/-- A command that then always returns does so for the readable entries. -/
theorem returns_iff_readable
    (coherent : Coherent start.ns)
    (validNames :
      ∀ file ∈ start.ns.files, validateFilename file.filename = true)
    (known : username ≠ [])
    (invalidName unknownUser missing denied : Refusal)
    {next : Nat → FileMetadata → NsHandler World α}
    (completes : ∀ index file, Completes (next index file)) :
    (∃ value after,
        withReadable username filename invalidName unknownUser missing denied
            next start =
          .ok value after) ↔
      Readable start.ns username filename := by
  obtain ⟨looked, isLook, ran⟩ := lookupMetadata_apply coherent filename
  have nodup := coherent.names_nodup
  simp only [withReadable, bind_apply]
  constructor
  · rintro ⟨value, after, returned⟩
    cases valid : validateFilename filename with
    | false =>
        rw [valid] at returned
        cases returned
    | true =>
        simp only [checked, valid, known, ne_eq, not_false_eq_true,
          decide_true, ↓reduceIte, pure_apply, ran] at returned
        cases found : plainScan start.ns.files filename with
        | none =>
            rw [found] at returned
            cases returned
        | some index =>
            obtain ⟨file, held, named⟩ := plainScan_some found
            simp only [found, held, Option.bind_some, Option.map_some,
              bind_apply] at returned
            refine ⟨file, List.mem_of_getElem? held, named, ?_⟩
            cases mayRead : fileHasReadAccess file username with
            | true => rfl
            | false =>
                rw [mayRead] at returned
                cases returned
  · rintro ⟨file, present, named, mayRead⟩
    obtain ⟨index, held⟩ := List.getElem?_of_mem present
    have found : plainScan start.ns.files filename = some index :=
      (plainScan_eq_some_iff nodup).mpr ⟨file, held, named⟩
    have valid : validateFilename filename = true :=
      named ▸ validNames file present
    obtain ⟨value, after, returned⟩ := completes index file looked
    refine ⟨value, after, ?_⟩
    simp only [checked, valid, known, ne_eq, not_false_eq_true, decide_true,
      ↓reduceIte, bind_apply, pure_apply, ran, found, held,
      Option.bind_some, Option.map_some, mayRead, returned]

variable
  (coherent : Coherent start.ns)
  (validNames :
    ∀ file ∈ start.ns.files, validateFilename file.filename = true)
  (known : username ≠ [])

include coherent validNames known

theorem info_returns_iff (machine : Machine) :
    (∃ stream after,
        handleInfo machine username [str "INFO", filename] start =
          .ok stream after) ↔
      Readable start.ns username filename :=
  returns_iff_readable coherent validNames known
    ⟨errInvalidRequest, str "Invalid filename requested for INFO."⟩
    ⟨errInternalError, str "Client identity unknown."⟩
    ⟨errFileNotFound, str "File not found for INFO."⟩
    ⟨errPermissionDenied, str "User lacks read access for INFO."⟩
    fun _ file => .pure (infoMessages machine file)

theorem execStart_returns_iff (now : Int) :
    (∃ file after, execStart now username filename start = .ok file after) ↔
      Readable start.ns username filename :=
  returns_iff_readable coherent validNames known
    ⟨errInvalidRequest, str "Invalid filename."⟩
    ⟨errInternalError, str "Client identity unknown."⟩
    ⟨errFileNotFound, str "File not found."⟩
    ⟨errPermissionDenied, str "User lacks read access for EXEC."⟩
    fun _ file =>
      .bind (completes_changeNs _) fun _ =>
        .pure (accessedMetadata now username file)

theorem reqLoc_returns_iff (now : Int) :
    (∃ reply after,
        handleReqLoc now username [str "REQ_LOC", str "READ", filename]
            start =
          .ok reply after) ↔
      Readable start.ns username filename :=
  returns_iff_readable coherent validNames known
    ⟨errInvalidRequest, str "Invalid filename requested."⟩
    ⟨errInternalError, str "Client identity unknown."⟩
    ⟨errFileNotFound, str "Requested file not found."⟩
    ⟨errPermissionDenied, str "User lacks required access."⟩
    fun _ file =>
      .bind (completes_changeNs _) fun _ =>
        .pure [str "OK_LOC", file.filename, file.ssIp, decimal file.ssPort]

end Readers

/-- The names `VIEW` lists. -/
def shownNames (replies : List (List CString)) : List CString :=
  replies.filterMap fun reply =>
    match reply with
    | type :: name :: _ => if type = str "OK_VIEW_L" then some name else none
    | _ => none

theorem shownNames_rows
    (machine : Machine)
    (requestDetails : Bool)
    (files : List FileMetadata) :
    shownNames
        (files.map (viewRow machine requestDetails) ++
          [[str "OK_VIEW_END"]]) =
      files.map FileMetadata.filename := by
  have row :
      ∀ file,
        shownNames [viewRow machine requestDetails file] =
          [file.filename] := by
    intro file
    cases requestDetails <;> rfl
  induction files with
  | nil =>
      rfl
  | cons file rest inductionHypothesis =>
      have split :
          shownNames
              ((file :: rest).map (viewRow machine requestDetails) ++
                [[str "OK_VIEW_END"]]) =
            shownNames [viewRow machine requestDetails file] ++
              shownNames
                (rest.map (viewRow machine requestDetails) ++
                  [[str "OK_VIEW_END"]]) := by
        rw [shownNames, shownNames, shownNames, ← List.filterMap_append]
        rfl
      rw [split, row, inductionHypothesis]
      rfl

/--
What `VIEW` shows a user: rows of entries in the order of the table, with `-a`
of all of them, and otherwise of those that the user may read, which are the
ones that `INFO`, a request to read and `EXEC` would not refuse.
-/
structure ViewTruthful
    {World : Type}
    (machine : Machine)
    (state : NsState World)
    (username : CString)
    (now : Int)
    (requestAll requestDetails : Bool)
    (replies : List (List CString)) : Prop where
  inOrder :
    ∃ listed : List FileMetadata,
      listed.Sublist state.ns.files ∧
        replies =
          listed.map (viewRow machine requestDetails) ++ [[str "OK_VIEW_END"]]
  once : (shownNames replies).Nodup
  all :
    requestAll = true →
      shownNames replies = state.ns.files.map FileMetadata.filename
  readable :
    requestAll = false →
      ∀ filename,
        filename ∈ shownNames replies ↔
          Readable state.ns username filename
  info :
    requestAll = false →
      ∀ filename,
        filename ∈ shownNames replies ↔
          ∃ stream after,
            handleInfo machine username [str "INFO", filename] state =
              .ok stream after
  located :
    requestAll = false →
      ∀ filename,
        filename ∈ shownNames replies ↔
          ∃ reply after,
            handleReqLoc now username [str "REQ_LOC", str "READ", filename]
                state =
              .ok reply after
  executed :
    requestAll = false →
      ∀ filename,
        filename ∈ shownNames replies ↔
          ∃ file after,
            execStart now username filename state = .ok file after

/-- The entries that `VIEW` lists, with and without `-a`. -/
theorem mem_shownNames_rows
    (machine : Machine)
    (username : CString)
    (requestDetails : Bool)
    (ns : NameServer)
    (filename : CString) :
    filename ∈
        shownNames
          ((ns.files.filter fun file => false || viewShows username file).map
              (viewRow machine requestDetails) ++
            [[str "OK_VIEW_END"]]) ↔
      Readable ns username filename := by
  simp only [Bool.false_or]
  rw [shownNames_rows, List.mem_map]
  constructor
  · rintro ⟨file, listed, named⟩
    rw [List.mem_filter, viewShows_eq] at listed
    exact ⟨file, listed.1, named, listed.2⟩
  · rintro ⟨file, present, named, mayRead⟩
    refine ⟨file, ?_, named⟩
    rw [List.mem_filter, viewShows_eq]
    exact ⟨present, mayRead⟩

/--
In every reachable state `VIEW` lists entries in the order of the table, each
file once: with `-a` all, and without `-a` exactly those that `INFO`, a request
to read and `EXEC` would not refuse the same user.
-/
theorem view_shows_readable
    {World : Type}
    (backend : Backend World)
    (machine : Machine)
    (world : World)
    (actions : List (NsAction World))
    (now : Int)
    {username : CString}
    (known : username ≠ [])
    {msg : List CString}
    {requestAll requestDetails : Bool}
    (flags :
      parseViewFlags false false (msg[1]?.getD []) =
        some (requestAll, requestDetails)) :
    ∃ replies,
      handleView machine username msg
            (runFrom (nsStep backend) ⟨nsInit, world⟩ actions) =
          .ok replies (runFrom (nsStep backend) ⟨nsInit, world⟩ actions) ∧
        ViewTruthful machine
          (runFrom (nsStep backend) ⟨nsInit, world⟩ actions) username now
          requestAll requestDetails replies := by
  have coherent := (registry_reachable backend world actions).coherent
  have validNames := validNames_reachable backend world actions
  generalize runFrom (nsStep backend) ⟨nsInit, world⟩ actions = state
    at coherent validNames ⊢
  refine ⟨_, by
    simp only [handleView, flags, nsEnsure, known, ne_eq, not_false_eq_true,
      decide_true, ↓reduceIte, readNs, bind_apply, pure_apply, get_apply]
    rfl, ?_⟩
  constructor
  case inOrder =>
    exact ⟨_, List.filter_sublist, rfl⟩
  case once =>
    rw [shownNames_rows]
    exact coherent.names_nodup.sublist
      (List.filter_sublist.map FileMetadata.filename)
  case all =>
    rintro rfl
    rw [shownNames_rows]
    simp only [Bool.true_or, List.filter_true]
  case readable =>
    rintro rfl filename
    rw [mem_shownNames_rows]
  case info =>
    rintro rfl filename
    rw [mem_shownNames_rows, info_returns_iff coherent validNames known]
  case located =>
    rintro rfl filename
    rw [mem_shownNames_rows, reqLoc_returns_iff coherent validNames known]
  case executed =>
    rintro rfl filename
    rw [mem_shownNames_rows, execStart_returns_iff coherent validNames known]

/-- A machine without a clock and without a shell. -/
def idleMachine : Machine where
  formatTime _ := []
  popen _ := none

/-- One of two files has been shared. -/
def sharedFile : List (NsAction Unit) :=
  [.servers [someStorageServer],
    .command 1 (str "ada") (.create [str "CREATE", str "plan"]),
    .command 1 (str "ada") (.create [str "CREATE", str "note"]),
    .command 2 (str "ada")
      (.addAccess [str "ADDACCESS", str "plan", str "eve", str "R"])]

/-- Both listings of a state in which `eve` may read one file of two. -/
theorem view_shows_shared_plan :
    let state := runFrom (nsStep acceptingStorage) ⟨nsInit, ()⟩ sharedFile
    (∃ replies,
      handleView idleMachine (str "eve") [str "VIEW", str "-l"] state =
          .ok replies state ∧
        ViewTruthful idleMachine state (str "eve") 3 false true replies) ∧
      ∃ replies,
        handleView idleMachine (str "eve") [str "VIEW", str "-a"] state =
            .ok replies state ∧
          ViewTruthful idleMachine state (str "eve") 3 true false replies :=
  ⟨view_shows_readable acceptingStorage idleMachine () sharedFile 3
      (by decide)
      (show parseViewFlags false false (str "-l") = some (false, true) by
        decide),
    view_shows_readable acceptingStorage idleMachine () sharedFile 3
      (by decide)
      (show parseViewFlags false false (str "-a") = some (true, false) by
        decide)⟩

end DistributedDocs
