import DistributedDocs.AccessLists
import DistributedDocs.AccessRequests
import DistributedDocs.NamespaceTree

namespace DistributedDocs

/-!
# The metadata database and acknowledged commands

`ns_save_metadata` writes all of `files[]`, and each command that saves does so
once, after its reply.  The database is the list that was written last: writing
and reading it back are taken to work.  `APPROVEACCESS` never saves, and a
rollback that does not give the lists back is not saved either.
-/

/-- Two states of an entry with the same users on each list. -/
def sameUsers (file other : FileMetadata) : Bool :=
  file.readAccessUsers.isPerm other.readAccessUsers &&
    file.writeAccessUsers.isPerm other.writeAccessUsers

/-- The database entry has what the claim of durability is about. -/
structure SameRecord (saved file : FileMetadata) : Prop where
  filename : saved.filename = file.filename
  owner : saved.owner = file.owner
  ssIp : saved.ssIp = file.ssIp
  ssPort : saved.ssPort = file.ssPort
  isDirectory : saved.isDirectory = file.isDirectory
  users : sameUsers saved file = true

/-- The database holds the current record of every entry. -/
def DatabaseHolds (database : List FileMetadata) (ns : NameServer) : Prop :=
  ∀ file ∈ ns.files, ∃ saved ∈ database, SameRecord saved file

/-! ## Commands that save -/

/-- The entry of a name, as `file_lookup_locked` finds it. -/
def entryNamed (filename : CString) (ns : NameServer) :
    Option FileMetadata :=
  (plainScan ns.files filename).bind fun index => ns.files[index]?

/-- The entry whose lists the user may change for a target user. -/
def changeableEntry
    (username filename targetUser : CString)
    (ns : NameServer) : Option FileMetadata :=
  (entryNamed filename ns).filter fun file =>
    ((validateFilename filename && validateUsername targetUser) &&
        username ≠ []) &&
      strncmpEq file.owner username maxUsernameLength

/-- `ADDACCESS` names the owner of the file: it replies at once. -/
def namesOwner (msg : List CString) (ns : NameServer) : Bool :=
  match msg with
  | _ :: filename :: targetUser :: _ =>
      (entryNamed filename ns).any fun file =>
        strncmpEq file.owner targetUser maxUsernameLength
  | _ => false

/-- Whether a command that has returned a reply calls `ns_save_metadata`. -/
def NsCommand.saves (ns : NameServer) (reply : List CString) :
    NsCommand → Bool
  | .create _ | .createFolder _ | .move _ | .delete _ | .reqLoc _
  | .remAccess _ => true
  | .copy _ => isOkMessage reply
  | .addAccess msg => !namesOwner msg ns
  | .lookup _ | .requestAccess _ | .approveAccess _ | .rejectAccess _ => false

section Exec

variable {World : Type} (backend : Backend World)

/-- `EXEC` under the lock: the access is stamped, which makes the metadata dirty. -/
def execStart
    (now : Int)
    (username filename : CString) : NsHandler World FileMetadata := do
  nsEnsure (validateFilename filename) errInvalidRequest "Invalid filename."
  nsEnsure (username ≠ []) errInternalError "Client identity unknown."
  let some (index, file) ← lookupMetadata filename
    | nsRefuse errFileNotFound "File not found."
  nsEnsure (fileHasReadAccess file username)
    errPermissionDenied "User lacks read access for EXEC."
  changeNs (changeFile index (accessedMetadata now username))
  return accessedMetadata now username file

/-- `EXEC` asks the storage server for the commands to execute. -/
def execContent (file : FileMetadata) : NsHandler World CString := do
  let some target ← readNs (homeOf file)
    | nsRefuse errInternalError "Storage server for file is offline."
  match ←
      sendAndWait backend target.address
        [str "GET_CONTENT", file.filename] with
  | .failed _ =>
      nsRefuse errInternalError
        "Failed to get file content from storage server."
  | .unparsable | .message [] =>
      nsRefuse errInternalError "Malformed storage server response."
  | .message (type :: arguments) =>
      if type = str "ERR" then
        throw ⟨errorCode (type :: arguments), errorDetail (type :: arguments)⟩
      else
        match arguments with
        | _ :: content :: _ =>
            nsEnsure (type = str "OK_CONTENT") errInternalError
              "Unexpected storage server payload for EXEC."
            return content
        | _ =>
            nsRefuse errInternalError
              "Unexpected storage server payload for EXEC."

/-- `EXEC`, up to the reply that starts the output of the shell. -/
def handleExec
    (now : Int)
    (username : CString)
    (msg : List CString) : NsHandler World (List CString) := do
  match msg with
  | _ :: filename :: _ =>
      let file ← execStart now username filename
      let _ ← execContent backend file
      return [str "OK_EXEC_START"]
  | _ => nsRefuse errInvalidRequest "Filename missing in EXEC."

end Exec

/-- `metadata_dirty`: `EXEC` has stamped the entry, however it ends. -/
def execDirties (username : CString) (msg : List CString) (ns : NameServer) :
    Bool :=
  match msg with
  | _ :: filename :: _ =>
      (validateFilename filename && username ≠ []) &&
        (entryNamed filename ns).any fun file =>
          fileHasReadAccess file username
  | _ => false

/-- A command of a client; `VIEW`, `LIST` and `LISTREQUESTS` are `listing`. -/
inductive ClientCommand where
  | ns (command : NsCommand)
  | exec (msg : List CString)
  | listing

section Saving

variable {World : Type} (backend : Backend World)

/-- The handler of a command of a client. -/
def ClientCommand.handler (now : Int) (username : CString) :
    ClientCommand → NsHandler World (List CString)
  | .ns command => command.handler backend now username
  | .exec msg => handleExec backend now username msg
  | .listing => return [str "OK_LIST"]

/-- Whether a command of a client calls `ns_save_metadata`. -/
def ClientCommand.saves
    (username : CString)
    (ns : NameServer)
    (outcome :
      EStateM.Result Refusal (NsState World) (List CString)) :
    ClientCommand → Bool
  | .exec msg => execDirties username msg ns
  | .listing => false
  | .ns command =>
      match outcome with
      | .ok reply _ => command.saves ns reply
      | .error _ _ => false

/-- The name server with its storage servers, and the database file. -/
structure SavedState (World : Type) where
  state : NsState World
  database : List FileMetadata

/-- Commands of clients, one after the other, and changes of the servers. -/
inductive SavedStep where
  | client (now : Int) (username : CString) (command : ClientCommand)
  | servers (storageServers : List StorageServerInfo)

/-- A command runs, and saves if it is one that does. -/
def savedStep (saved : SavedState World) : SavedStep → SavedState World
  | .client now username command =>
      let outcome := command.handler backend now username saved.state
      let after := finalState outcome
      { state := after
        database :=
          if command.saves username saved.state.ns outcome then after.ns.files
          else saved.database }
  | .servers storageServers =>
      { saved with
        state := nsStep backend saved.state (.servers storageServers) }

/-- Whether a command is answered with success. -/
def acknowledged (saved : SavedState World) : SavedStep → Bool
  | .client now username command =>
      match command.handler backend now username saved.state with
      | .ok reply _ => isOkMessage reply
      | .error _ _ => false
  | .servers _ => false

/-- The name server before its first command, with an empty database. -/
def freshlySaved (world : World) : SavedState World where
  state := ⟨nsInit, world⟩
  database := []

/-- After every command that is answered with success the database holds. -/
def AcknowledgedDurable (world : World) (run : List SavedStep) : Prop :=
  ∀ before step after,
    run = before ++ step :: after →
      acknowledged backend
          (runFrom (savedStep backend) (freshlySaved world) before) step =
        true →
      let reached :=
        runFrom (savedStep backend) (freshlySaved world) (before ++ [step])
      DatabaseHolds reached.database reached.state.ns

/-! ## The condition -/

/-- The storage server part of an access change has failed. -/
def refuses
    (outcome : EStateM.Result Refusal (NsState World) (Option Refusal)) :
    Bool :=
  match outcome with
  | .ok (some _) _ => true
  | _ => false

/-- The request `APPROVEACCESS` is about, if the user may decide it. -/
def requestToDecide
    (username idField : CString)
    (ns : NameServer) : Option AccessRequest :=
  (ns.accessRequests.find? fun req =>
    req.id = atoi idField).filter fun req =>
      req.isPending && req.toUser = username

/--
A grant is of what the user already has; what a storage server refuses is
undone by the rollback.
-/
def keepsUsers
    (username : CString)
    (state : NsState World) : NsCommand → Bool
  | .approveAccess (_ :: idField :: _) =>
      (requestToDecide username idField state.ns).all fun req =>
        (entryNamed req.filename state.ns).all fun file =>
          let granted :=
            (fileAddAccess file req.fromUser req.grantRead req.grantWrite).2
          if refuses (approveOnStorage backend file req state) then
            sameUsers file (fileRemoveAccess granted req.fromUser).2
          else
            sameUsers file granted
  | .addAccess (_ :: filename :: targetUser :: permission :: _) =>
      (changeableEntry username filename targetUser state.ns).all fun file =>
        (parsePermissionFlags permission).all fun (grantRead, grantWrite) =>
          let (added, adding) :=
            fileAddAccess file targetUser grantRead grantWrite
          if strncmpEq file.owner targetUser maxUsernameLength then
            true
          else if !added then
            sameUsers file adding
          else
            !refuses
                (accessOnStorage backend file
                  [str "SS_ADDACCESS", filename, targetUser,
                    permToken grantRead grantWrite] state) ||
              sameUsers file (fileRemoveAccess adding targetUser).2
  | .remAccess (_ :: filename :: targetUser :: _) =>
      (changeableEntry username filename targetUser state.ns).all fun file =>
        !refuses
            (accessOnStorage backend file
              [str "SS_REMACCESS", filename, targetUser] state) ||
          sameUsers file
            (fileAddAccess (fileRemoveAccess file targetUser).2 targetUser
              (fileAclContains file.readAccessUsers targetUser)
              (fileAclContains file.writeAccessUsers targetUser)).2
  | _ => true

/-- The condition on a step. -/
def KeepsUsers (saved : SavedState World) : SavedStep → Prop
  | .client _ username (.ns command) =>
      keepsUsers backend username saved.state command = true
  | _ => True

instance
    (saved : SavedState World)
    (step : SavedStep) :
    Decidable (KeepsUsers backend saved step) := by
  unfold KeepsUsers
  split <;> infer_instance

end Saving

/-! ## Entries that keep their record -/

theorem sameUsers_iff {file other : FileMetadata} :
    sameUsers file other = true ↔
      file.readAccessUsers.Perm other.readAccessUsers ∧
        file.writeAccessUsers.Perm other.writeAccessUsers := by
  simp only [sameUsers, Bool.and_eq_true, List.isPerm_iff]

namespace SameRecord

theorem refl (file : FileMetadata) : SameRecord file file where
  filename := rfl
  owner := rfl
  ssIp := rfl
  ssPort := rfl
  isDirectory := rfl
  users := sameUsers_iff.mpr ⟨.refl _, .refl _⟩

theorem trans
    {first second third : FileMetadata}
    (earlier : SameRecord first second)
    (later : SameRecord second third) :
    SameRecord first third where
  filename := earlier.filename.trans later.filename
  owner := earlier.owner.trans later.owner
  ssIp := earlier.ssIp.trans later.ssIp
  ssPort := earlier.ssPort.trans later.ssPort
  isDirectory := earlier.isDirectory.trans later.isDirectory
  users :=
    have ⟨readers, writers⟩ := sameUsers_iff.mp earlier.users
    have ⟨laterReaders, laterWriters⟩ := sameUsers_iff.mp later.users
    sameUsers_iff.mpr
      ⟨readers.trans laterReaders, writers.trans laterWriters⟩

/-- An entry that differs in its lists only, and not in their users. -/
theorem of_users
    {file : FileMetadata}
    {readers writers : List CString}
    (users :
      sameUsers file
          { file with
            readAccessUsers := readers
            writeAccessUsers := writers } =
        true) :
    SameRecord file
      { file with
        readAccessUsers := readers
        writeAccessUsers := writers } where
  filename := rfl
  owner := rfl
  ssIp := rfl
  ssPort := rfl
  isDirectory := rfl
  users := users

end SameRecord

/-- Every entry has the record of an entry that was there before. -/
def KeepsRecords (before after : NameServer) : Prop :=
  ∀ file ∈ after.files, ∃ earlier ∈ before.files, SameRecord earlier file

namespace KeepsRecords

theorem of_subset
    {before after : NameServer}
    (subset : ∀ file ∈ after.files, file ∈ before.files) :
    KeepsRecords before after :=
  fun file member => ⟨file, subset file member, .refl file⟩

theorem of_files
    {before after : NameServer}
    (files : after.files = before.files) :
    KeepsRecords before after :=
  of_subset fun _ member => files ▸ member

theorem trans
    {first second third : NameServer}
    (earlier : KeepsRecords first second)
    (later : KeepsRecords second third) :
    KeepsRecords first third := by
  intro file member
  obtain ⟨middle, middleMember, same⟩ := later file member
  obtain ⟨origin, present, original⟩ := earlier middle middleMember
  exact ⟨origin, present, original.trans same⟩

/-- An entry that is changed as `change` does keeps its record. -/
theorem of_modify
    {before after : NameServer}
    {index : Nat}
    {file : FileMetadata}
    {change : FileMetadata → FileMetadata}
    (held : before.files[index]? = some file)
    (files : after.files = before.files.modify index change)
    (same : SameRecord file (change file)) :
    KeepsRecords before after := by
  intro later member
  rw [files] at member
  obtain ⟨place, found⟩ := List.getElem?_of_mem member
  rw [List.getElem?_modify] at found
  by_cases here : index = place
  · subst here
    simp only [held, Option.map_eq_map, Option.map_some, ↓reduceIte,
      Option.some.injEq] at found
    subst found
    exact ⟨file, List.mem_of_getElem? held, same⟩
  · simp only [here, ↓reduceIte, Option.map_eq_map, Option.map_id'] at found
    exact ⟨later, List.mem_of_getElem? found, .refl later⟩

/-- What the database holds it still holds. -/
theorem databaseHolds
    {before after : NameServer}
    (keeps : KeepsRecords before after)
    {database : List FileMetadata}
    (holds : DatabaseHolds database before) :
    DatabaseHolds database after := by
  intro file member
  obtain ⟨earlier, present, same⟩ := keeps file member
  obtain ⟨saved, stored, sameSaved⟩ := holds earlier present
  exact ⟨saved, stored, sameSaved.trans same⟩

end KeepsRecords

theorem DatabaseHolds.refl (ns : NameServer) : DatabaseHolds ns.files ns :=
  fun file member => ⟨file, member, .refl file⟩

/-! ## Commands that do not save -/

section Handlers

variable
  {World : Type}
  {backend : Backend World}
  {now : Int}
  {username : CString}
  {start : NsState World}

theorem Looked.keepsRecords
    {state : NsState World}
    (looked : Looked start state) :
    KeepsRecords start.ns state.ns :=
  .of_files looked.files_eq

/-- What the program returns is saved if `saved` says so; else nothing is lost. -/
def KeepsUnlessSaved
    {α : Type}
    (start : NsState World)
    (saved : α → Bool)
    (program : NsHandler World α) : Prop :=
  Triple (Looked start) program
    (fun reply final =>
      saved reply = false → KeepsRecords start.ns final.ns)
    (fun final => KeepsRecords start.ns final.ns)

namespace KeepsUnlessSaved

variable
  {α β : Type}
  {saved : β → Bool}

theorem refuse
    (code : Int)
    (text : String) :
    KeepsUnlessSaved start saved (nsRefuse code text : NsHandler World β) :=
  Triple.throw fun _ => Looked.keepsRecords

theorem pure (value : β) :
    KeepsUnlessSaved start saved (Pure.pure value : NsHandler World β) :=
  Triple.pure fun _ looked _ => looked.keepsRecords

/-- First look, then act on what has been found. -/
theorem afterLooking
    {fact : α → Prop}
    {program : NsHandler World α}
    {next : α → NsHandler World β}
    (finds : Finds start fact program)
    (acts :
      ∀ value, fact value → KeepsUnlessSaved start saved (next value)) :
    KeepsUnlessSaved start saved (program >>= next) :=
  finds.andThen (fun _ => Looked.keepsRecords) acts

end KeepsUnlessSaved

theorem keepsRecords_handleCreate
    (registry : Registry start.ns)
    (msg : List CString) :
    KeepsUnlessSaved start (fun _ => true)
      (handleCreate backend now username msg) := by
  unfold handleCreate createTarget
  split
  · next type filename rest =>
    refine .afterLooking Finds.ensure fun _ valid => ?_
    refine .afterLooking Finds.ensure fun _ _ => ?_
    simp only [bind_assoc]
    refine .afterLooking
      (Finds.read fun state only => by rw [only.files]) fun _ _ => ?_
    refine .afterLooking Finds.ensure fun _ _ => ?_
    refine .afterLooking (Finds.lookup_absent filename)
      fun found isFound => ?_
    refine .afterLooking Finds.ensure fun _ absent => ?_
    refine .afterLooking
      (Finds.read fun state only => by
        unfold OnlyCacheChanged at only
        rw [only]) fun _ _ => ?_
    refine .afterLooking Finds.ensure fun _ _ => ?_
    intro looked known
    simp only [onNs, bind_apply, modifyGet_apply]
    cases selected : (nsSelectStorageServerBalanced looked.ns).1 with
    | none =>
        exact .of_files ((files_select looked.ns).trans known.files_eq)
    | some target =>
        have fresh := isFound (by simpa using absent)
        simp only [pure_apply, changeNs, modify_apply]
        generalize asked :
          createOnStorage backend target username filename _ = result
        cases result with
        | error refusal answered =>
            exact absurd asked
              (onlyAsks_createOnStorage target filename).ne_error
        | ok outcome answered =>
            cases outcome with
            | none =>
                intro unsaved
                cases unsaved
            | some refusal =>
                have same := (onlyAsks_createOnStorage target filename).ns_eq
                  asked
                change KeepsRecords start.ns
                  (removeFileMetadataLocked filename answered.ns).2
                rw [same]
                exact .of_files
                  (files_createRefused now username target registry known
                    valid fresh)
  · exact .refuse _ _

theorem keepsRecords_handleDelete (msg : List CString) :
    KeepsUnlessSaved start (fun _ => true)
      (handleDelete backend username msg) := by
  unfold handleDelete
  split
  · next type targetPath rest =>
    refine .afterLooking Finds.ensure fun _ _ => ?_
    refine .afterLooking Finds.ensure fun _ _ => ?_
    refine .afterLooking (finds_planDelete targetPath) fun plan _ => ?_
    intro looked known
    rw [bind_apply]
    cases deletes : deleteOnStorage backend plan looked with
    | error refusal final =>
        have same : final.ns = looked.ns :=
          ns_of_staysWithin (sameRegistry_deleteOnStorage plan)
            (congrArg finalState deletes)
        exact .of_files (same ▸ known.files_eq)
    | ok _ emptied =>
        by_cases single : plan.length = 1
        · simp [single, changeNs]
        · simp [single, changeNs]
  · exact .refuse _ _

theorem keepsRecords_handleMove (msg : List CString) :
    KeepsUnlessSaved start (fun _ => true)
      (handleMove backend now username msg) := by
  refine (triple_handleMove msg).mono (fun _ => id) (fun _ _ _ => nofun) ?_
  rintro final (looked | ⟨_, _, _, _, plan, looked, _, _, attempt, renames⟩)
  · exact looked.keepsRecords
  · have same : final.ns = looked.ns :=
      ns_of_staysWithin (sameRegistry_renameOnStorage [] plan)
        (congrArg finalState renames)
    exact .of_files (same ▸ attempt.known.files_eq)

theorem keepsRecords_handleCopy (msg : List CString) :
    KeepsUnlessSaved start isOkMessage
      (handleCopy backend now username msg) := by
  unfold handleCopy
  split
  · next type srcName destName rest =>
    refine .afterLooking Finds.ensure fun _ _ => ?_
    refine .afterLooking Finds.ensure fun _ _ => ?_
    refine .afterLooking (finds_copyEntries srcName destName)
      fun entries _ => ?_
    obtain ⟨⟨srcIdx, src⟩, dest⟩ := entries
    simp only
    refine .afterLooking
      (Finds.read fun state only => homeOf_onlyCacheChanged only dest)
      fun home isHome => ?_
    split
    · next destSs =>
      refine .afterLooking
        (Finds.read fun state only => homeOf_onlyCacheChanged only src)
        fun srcHome _ => ?_
      split
      · next srcSs =>
        intro looked known
        simp only [bind_apply]
        generalize asked : sendAndWait backend destSs.address _ looked = result
        cases result with
        | error refusal answered =>
            exact absurd asked (OnlyAsks.sendAndWait _ _).ne_error
        | ok answer answered =>
            have kept : KeepsRecords start.ns answered.ns :=
              .of_files
                ((OnlyAsks.sendAndWait _ _).ns_eq asked ▸ known.files_eq)
            cases answer with
            | failed status =>
                exact kept
            | unparsable =>
                exact fun _ => kept
            | message fields =>
                cases accepted : isOkMessage fields with
                | false =>
                    simp only [accepted]
                    exact fun _ => kept
                | true =>
                    simp only [accepted, ↓reduceIte, changeNs, bind_apply,
                      modify_apply, pure_apply]
                    intro unsaved
                    cases unsaved
      · exact .refuse _ _
    · exact .refuse _ _
  · exact .refuse _ _

theorem keepsRecords_handleReqLoc (msg : List CString) :
    KeepsUnlessSaved start (fun _ => true)
      (handleReqLoc now username msg) := by
  have located :
      ∀ operation filename,
        KeepsUnlessSaved start (fun _ => true)
          (locateFile now username operation filename :
            NsHandler World (List CString)) := by
    intro operation filename
    unfold locateFile
    refine .afterLooking Finds.ensure fun _ _ => ?_
    refine .afterLooking Finds.ensure fun _ _ => ?_
    refine .afterLooking (Finds.lookup_entry filename) fun found _ => ?_
    split
    · split
      · refine .afterLooking Finds.ensure fun _ _ => ?_
        exact fun looked known => nofun
      · exact .refuse _ _
    · exact .refuse _ _
  unfold handleReqLoc
  split
  · exact located _ _
  · exact located _ _
  · exact .refuse _ _

/-! ### Access changes -/

theorem Looked.storageServers
    {state : NsState World}
    (looked : Looked start state) :
    state.ns.storageServers = start.ns.storageServers := by
  have only := looked.onlyCache
  unfold OnlyCacheChanged at only
  rw [only]

/-- The answer depends on the storage servers and their world alone. -/
theorem refuses_accessOnStorage
    {first second : NsState World}
    (servers : second.ns.storageServers = first.ns.storageServers)
    (sameWorld : second.world = first.world)
    (file : FileMetadata)
    (request : List CString) :
    refuses (accessOnStorage backend file request second) =
      refuses (accessOnStorage backend file request first) := by
  have sameHome : homeOf file second.ns = homeOf file first.ns := by
    simp only [homeOf, serverAt, servers]
  simp only [accessOnStorage, readNs, bind_apply, get_apply, pure_apply,
    sameHome]
  cases homeOf file first.ns with
  | none =>
      rfl
  | some target =>
      simp only [sendAndWait, bind_apply, modifyGet_apply, pure_apply,
        sameWorld]
      generalize answerFailure _ _ _ _ = failure
      cases failure <;> rfl

/-- A change the storage server has refused, and what undoing it leaves. -/
theorem Looked.refusedChange
    {looked answered : NsState World}
    {index : Nat}
    {change : FileMetadata → FileMetadata}
    {file : FileMetadata}
    {request : List CString}
    {refusal : Refusal}
    (isLooked : Looked start looked)
    (asked :
      accessOnStorage backend file request
          (looked.onRegistry (changeFile index change)) =
        .ok (some refusal) answered) :
    refuses (accessOnStorage backend file request start) = true ∧
      ∀ undo,
        (changeFile index undo answered.ns).files =
          start.ns.files.modify index (undo ∘ change) := by
  constructor
  · have servers :
        (looked.onRegistry (changeFile index change)).ns.storageServers =
          start.ns.storageServers :=
      isLooked.storageServers
    rw [← refuses_accessOnStorage servers isLooked.sameWorld, asked]
    rfl
  · intro undo
    have same := (onlyAsks_accessOnStorage file request).ns_eq asked
    rw [changeFile, same, NsState.onRegistry, changeFile]
    simp only [List.modify_modify_eq, isLooked.files_eq]

theorem refuses_approveOnStorage
    {first second : NsState World}
    (servers : second.ns.storageServers = first.ns.storageServers)
    (sameWorld : second.world = first.world)
    (file : FileMetadata)
    (req : AccessRequest) :
    refuses (approveOnStorage backend file req second) =
      refuses (approveOnStorage backend file req first) := by
  have sameHome : homeOf file second.ns = homeOf file first.ns := by
    simp only [homeOf, serverAt, servers]
  simp only [approveOnStorage, readNs, bind_apply, get_apply, pure_apply,
    sameHome]
  cases homeOf file first.ns with
  | none =>
      rfl
  | some target =>
      simp only [sendAndWait, bind_apply, modifyGet_apply, sameWorld]
      generalize
        (backend target.address [_, req.filename, req.fromUser, _]
          first.world).1 = answer
      rcases answer with status | _ | (_ | ⟨type, rest⟩)
      · rfl
      · rfl
      · rfl
      · by_cases isError : type = str "ERR"
        · simp only [isError, ↓reduceIte]
          rfl
        · simp only [isError, ↓reduceIte]
          rfl

/-- A grant the storage server has decided on, and the entries it leaves. -/
theorem Looked.decidedGrant
    {looked answered : NsState World}
    {index position : Nat}
    {file : FileMetadata}
    {req : AccessRequest}
    {outcome : Option Refusal}
    (isLooked : Looked start looked)
    (asked :
      approveOnStorage backend file req (granted index position req looked) =
        .ok outcome answered) :
    refuses (approveOnStorage backend file req start) = outcome.isSome ∧
      answered.ns.files =
        start.ns.files.modify index fun entry =>
          (fileAddAccess entry req.fromUser req.grantRead
            req.grantWrite).2 := by
  constructor
  · have servers :
        (granted index position req looked).ns.storageServers =
          start.ns.storageServers :=
      isLooked.storageServers
    rw [← refuses_approveOnStorage servers isLooked.sameWorld, asked]
    cases outcome <;> rfl
  · rw [(onlyAsks_approveOnStorage file req).ns_eq asked]
    exact congrArg (List.modify · index _) isLooked.files_eq

theorem EntryAt.entryNamed_eq
    {ns : NameServer}
    {filename : CString}
    {index : Nat}
    {file : FileMetadata}
    (entry : EntryAt ns filename index file) :
    entryNamed filename ns = some file := by
  rw [entryNamed, entry.found, Option.bind_some, entry.held]

/-- An entry whose lists are changed keeps its record if their users stay. -/
theorem EntryAt.keepsRecords
    {ns after : NameServer}
    {filename : CString}
    {index : Nat}
    {file : FileMetadata}
    {change : FileMetadata → FileMetadata}
    (entry : EntryAt ns filename index file)
    (files : after.files = ns.files.modify index change)
    (listsOnly :
      ∃ readers writers,
        change file =
          { file with
            readAccessUsers := readers
            writeAccessUsers := writers })
    (users : sameUsers file (change file) = true) :
    KeepsRecords ns after := by
  refine .of_modify entry.held files ?_
  obtain ⟨readers, writers, isChange⟩ := listsOnly
  rw [isChange] at users ⊢
  exact .of_users users

/-- Granting and revoking change the lists only. -/
theorem fileRemoveAccess_fileAddAccess_eq
    (file : FileMetadata)
    (user revoked : CString)
    (grantRead grantWrite : Bool) :
    ∃ readers writers,
      (fileRemoveAccess (fileAddAccess file user grantRead grantWrite).2
          revoked).2 =
        { file with
          readAccessUsers := readers
          writeAccessUsers := writers } := by
  obtain ⟨readers, writers, added⟩ :=
    fileAddAccess_eq file user grantRead grantWrite
  rw [added]
  exact ⟨_, _, rfl⟩

/-- Revoking and granting again change the lists only. -/
theorem fileAddAccess_fileRemoveAccess_eq
    (file : FileMetadata)
    (user revoked : CString)
    (grantRead grantWrite : Bool) :
    ∃ readers writers,
      (fileAddAccess (fileRemoveAccess file revoked).2 user grantRead
          grantWrite).2 =
        { file with
          readAccessUsers := readers
          writeAccessUsers := writers } := by
  obtain ⟨readers, writers, added⟩ :=
    fileAddAccess_eq (fileRemoveAccess file revoked).2 user grantRead
      grantWrite
  exact ⟨readers, writers, added⟩

theorem keepsRecords_handleAddAccess
    (msg : List CString)
    (keeps : keepsUsers backend username start (.addAccess msg) = true) :
    KeepsUnlessSaved start (fun _ => !namesOwner msg start.ns)
      (handleAddAccess backend username msg) := by
  unfold handleAddAccess
  split
  · next type filename targetUser permission rest =>
    refine .afterLooking Finds.ensure fun _ valid => ?_
    split
    · next grantRead grantWrite parsed =>
      refine .afterLooking Finds.ensure fun _ known => ?_
      refine .afterLooking (Finds.lookup_entry filename)
        fun found isFound => ?_
      split
      · next index file =>
        have entry := entryAt_of_lookup (isFound index file rfl)
        refine .afterLooking Finds.ensure fun _ owned => ?_
        split
        · exact .pure _
        · next other =>
          simp only [Bool.not_eq_true] at other
          have notOwner :
              namesOwner
                  (type :: filename :: targetUser :: permission :: rest)
                  start.ns =
                false := by
            simp only [namesOwner, entry.entryNamed_eq, Option.any_some, other]
          simp only [keepsUsers, changeableEntry, entry.entryNamed_eq, valid,
            known, owned, parsed, other, Option.filter_some, Option.all_some,
            Bool.and_self, ↓reduceIte, Bool.false_eq_true] at keeps
          intro looked isLooked
          simp only [bind_apply, changeNs, modify_apply]
          cases room :
              (fileAddAccess file targetUser grantRead grantWrite).1 with
          | false =>
              simp only [room, Bool.not_false, ↓reduceIte] at keeps
              exact entry.keepsRecords
                (congrArg (List.modify · index _) isLooked.files_eq)
                (fileAddAccess_eq file targetUser grantRead grantWrite) keeps
          | true =>
              simp only [room, Bool.not_true, Bool.false_eq_true, ↓reduceIte]
                at keeps
              simp only [nsEnsure, ↓reduceIte, pure_apply]
              generalize asked : accessOnStorage backend file _ _ = result
              cases result with
              | error refusal answered =>
                  exact absurd asked
                    (onlyAsks_accessOnStorage file _).ne_error
              | ok outcome answered =>
                  cases outcome with
                  | none =>
                      simp only [pure_apply, notOwner]
                      intro unsaved
                      cases unsaved
                  | some refusal =>
                      obtain ⟨refused, undone⟩ := isLooked.refusedChange asked
                      simp only [refused, Bool.not_true, Bool.false_or]
                        at keeps
                      exact entry.keepsRecords (undone _)
                        (fileRemoveAccess_fileAddAccess_eq file targetUser
                          targetUser grantRead grantWrite) keeps
      · exact .refuse _ _
    · exact .refuse _ _
  · exact .refuse _ _

theorem keepsRecords_handleRemAccess
    (msg : List CString)
    (keeps : keepsUsers backend username start (.remAccess msg) = true) :
    KeepsUnlessSaved start (fun _ => true)
      (handleRemAccess backend username msg) := by
  unfold handleRemAccess
  split
  · next type filename targetUser rest =>
    refine .afterLooking Finds.ensure fun _ valid => ?_
    refine .afterLooking Finds.ensure fun _ known => ?_
    refine .afterLooking (Finds.lookup_entry filename)
      fun found isFound => ?_
    split
    · next index file =>
      have entry := entryAt_of_lookup (isFound index file rfl)
      refine .afterLooking Finds.ensure fun _ owned => ?_
      refine .afterLooking Finds.ensure fun _ listed => ?_
      simp only [keepsUsers, changeableEntry, entry.entryNamed_eq, valid,
        known, owned, Option.filter_some, Option.all_some, Bool.and_self,
        ↓reduceIte] at keeps
      intro looked isLooked
      simp only [bind_apply, changeNs, modify_apply]
      generalize asked : accessOnStorage backend file _ _ = result
      cases result with
      | error refusal answered =>
          exact absurd asked (onlyAsks_accessOnStorage file _).ne_error
      | ok outcome answered =>
          cases outcome with
          | none =>
              intro unsaved
              cases unsaved
          | some refusal =>
              obtain ⟨refused, undone⟩ := isLooked.refusedChange asked
              simp only [refused, Bool.not_true, Bool.false_or] at keeps
              exact entry.keepsRecords (undone _)
                (fileAddAccess_fileRemoveAccess_eq file targetUser targetUser
                  _ _) keeps
    · exact .refuse _ _
  · exact .refuse _ _

theorem keepsRecords_handleApproveAccess
    (msg : List CString)
    (keeps : keepsUsers backend username start (.approveAccess msg) = true) :
    KeepsUnlessSaved start (fun _ => false)
      (handleApproveAccess backend username msg) := by
  unfold handleApproveAccess
  split
  · next type idField rest =>
    refine .afterLooking
      (Finds.read fun state only => by
        unfold OnlyCacheChanged at only
        rw [only]) fun request isRequest => ?_
    split
    · next position req =>
      rw [eq_comm, Option.bind_eq_some_iff] at isRequest
      obtain ⟨other, isFirst, held⟩ := isRequest
      rw [Option.map_eq_some_iff] at held
      obtain ⟨entry, requested, same⟩ := held
      cases same
      refine .afterLooking Finds.ensure fun _ allowed => ?_
      have decided :
          requestToDecide username idField start.ns = some req := by
        rw [requestToDecide, List.find?_eq_bind_findIdx?_getElem?]
        simp only [isFirst, Option.bind_some, requested, Option.filter_some]
        rw [if_pos allowed]
      refine .afterLooking (Finds.lookup_entry req.filename)
        fun found isFound => ?_
      split
      · next index file =>
        have isEntry := entryAt_of_lookup (isFound index file rfl)
        simp only [keepsUsers, decided, isEntry.entryNamed_eq,
          Option.all_some] at keeps
        intro looked isLooked
        simp only [bind_apply, changeNs, modify_apply]
        generalize asked : approveOnStorage backend file req _ = result
        cases result with
        | error refusal answered =>
            exact absurd asked (onlyAsks_approveOnStorage file req).ne_error
        | ok outcome answered =>
            obtain ⟨answer, answeredFiles⟩ := isLooked.decidedGrant asked
            cases outcome with
            | none =>
                rw [answer, if_neg (by decide)] at keeps
                exact fun _ => isEntry.keepsRecords answeredFiles
                  (fileAddAccess_eq file req.fromUser req.grantRead
                    req.grantWrite) keeps
            | some refusal =>
                rw [answer, if_pos Option.isSome_some] at keeps
                have undone :
                    (ungranted index position req answered).ns.files =
                      start.ns.files.modify index fun entry =>
                        (fileRemoveAccess
                          (fileAddAccess entry req.fromUser req.grantRead
                            req.grantWrite).2
                          req.fromUser).2 := by
                  change answered.ns.files.modify index _ = _
                  rw [answeredFiles, List.modify_modify_eq]
                  rfl
                exact isEntry.keepsRecords undone
                  (fileRemoveAccess_fileAddAccess_eq file req.fromUser
                    req.fromUser req.grantRead req.grantWrite) keeps
      · exact .refuse _ _
    · exact .refuse _ _
  · exact .refuse _ _

theorem keepsRecords_handleCreateFolder (msg : List CString) :
    KeepsUnlessSaved start (fun _ => true)
      (handleCreateFolder now username msg) :=
  (triple_handleCreateFolder msg).mono (fun _ => id) (fun _ _ _ => nofun)
    fun _ => Looked.keepsRecords

variable (backend now username) in
/-- A command that changes no entry keeps all records. -/
theorem keepsRecords_of_effects
    {command : NsCommand}
    {program : NsHandler World (List CString)}
    (effects : Effects backend now username start command program)
    (files :
      ∀ final, CommandEffect backend now username start command final →
        final.ns.files = start.ns.files) :
    KeepsUnlessSaved start (fun _ => false) program :=
  effects.mono (fun _ => id)
    (fun _ final effect _ => .of_files (files final effect))
    fun final effect => .of_files (files final effect)

/-- A command that does not save keeps every record, under the condition. -/
theorem keepsRecords_of_keepsUsers
    (registry : Registry start.ns)
    (command : NsCommand)
    (keeps : keepsUsers backend username start command = true) :
    KeepsUnlessSaved start (fun reply => command.saves start.ns reply)
      (command.handler backend now username) := by
  cases command with
  | create msg => exact keepsRecords_handleCreate registry msg
  | createFolder msg => exact keepsRecords_handleCreateFolder msg
  | move msg => exact keepsRecords_handleMove msg
  | delete msg => exact keepsRecords_handleDelete msg
  | copy msg => exact keepsRecords_handleCopy msg
  | reqLoc msg => exact keepsRecords_handleReqLoc msg
  | lookup filename =>
      refine keepsRecords_of_effects backend now username
        (effects_handleLookup filename) fun final effect => ?_
      cases effect with
      | looked known => exact known.files_eq
  | requestAccess msg =>
      refine keepsRecords_of_effects backend now username
        (effects_handleRequestAccess msg) fun final effect => ?_
      cases effect with
      | looked known => exact known.files_eq
      | requested known valid parsed entry => exact known.files_eq
  | approveAccess msg => exact keepsRecords_handleApproveAccess msg keeps
  | rejectAccess msg =>
      refine keepsRecords_of_effects backend now username
        (effects_handleRejectAccess msg) fun final effect => ?_
      cases effect with
      | looked known => exact known.files_eq
      | rejected known => exact known.files_eq
  | addAccess msg => exact keepsRecords_handleAddAccess msg keeps
  | remAccess msg => exact keepsRecords_handleRemAccess msg keeps

/-- `EXEC` that does not stamp an entry leaves them as they are. -/
theorem keepsRecords_handleExec
    (msg : List CString)
    (clean : execDirties username msg start.ns = false) :
    KeepsUnlessSaved start (fun _ => false)
      (handleExec backend now username msg) := by
  unfold handleExec execStart
  split
  · next type filename rest =>
    simp only [bind_assoc]
    refine .afterLooking Finds.ensure fun _ valid => ?_
    refine .afterLooking Finds.ensure fun _ known => ?_
    refine .afterLooking (Finds.lookup_entry filename) fun found isFound => ?_
    split
    · next index file =>
      have entry := entryAt_of_lookup (isFound index file rfl)
      simp only [bind_assoc]
      refine .afterLooking Finds.ensure fun _ readable => ?_
      simp [execDirties, valid, known, entry.entryNamed_eq, readable] at clean
    · exact .refuse _ _
  · exact .refuse _ _

end Handlers

/-! ## Runs -/

section Runs

variable
  {World : Type}
  {backend : Backend World}

variable (backend) in
theorem sameRegistry_execContent (file : FileMetadata) :
    StaysWithin SameRegistry (execContent backend file) := by
  have isEffect : IsEffect (σ := NsState World) SameRegistry :=
    isEffect_sameRegistry
  unfold execContent
  refine .bind isEffect (.bind isEffect (.get isEffect) fun _ => .pure isEffect _)
    fun home => ?_
  split
  · refine .bind isEffect (.modifyGet fun _ => rfl) fun answer => ?_
    split
    · exact .throw isEffect _
    · exact .throw isEffect _
    · exact .throw isEffect _
    · split
      · exact .throw isEffect _
      · split
        · refine .bind isEffect ?_ fun _ => .pure isEffect _
          unfold nsEnsure
          split
          · exact .pure isEffect _
          · exact .throw isEffect _
        · exact .throw isEffect _
  · exact .throw isEffect _

theorem registry_handleExec
    {now : Int}
    {username : CString}
    {start : NsState World}
    (registry : Registry start.ns)
    (msg : List CString) :
    Registry
      (finalState (handleExec backend now username msg start)).ns := by
  have looks :
      ∀ state : NsState World, Looked start state → Registry state.ns :=
    fun _ => registry.looked
  have triple :
      Triple (Looked start) (handleExec backend now username msg)
        (fun _ state => Registry state.ns) (fun state => Registry state.ns) := by
    unfold handleExec execStart
    split
    · simp only [bind_assoc]
      refine Finds.ensure.andThen looks fun _ _ => ?_
      refine Finds.ensure.andThen looks fun _ _ => ?_
      refine (Finds.lookup_entry _).andThen looks fun found isFound => ?_
      split
      · next index file =>
        simp only [bind_assoc, pure_bind]
        refine Finds.ensure.andThen looks fun _ _ => ?_
        intro looked known
        have stamped :
            Registry
              (changeFile index (accessedMetadata now username) looked.ns) :=
          (looks looked known).changeFile
            (filename_accessedMetadata now username) index
        have same :=
          sameRegistry_execContent backend
            (accessedMetadata now username file)
            (looked.onRegistry
              (changeFile index (accessedMetadata now username)))
        simp only [changeNs, bind_apply, modify_apply]
        change (finalState (execContent backend _ ⟨_, looked.world⟩)).ns = _
          at same
        generalize execContent backend _ _ = content at same ⊢
        have reached : Registry (finalState content).ns := by
          rw [same]
          exact stamped
        cases content with
        | ok value answered => exact reached
        | error refusal answered => exact reached
      · exact Triple.throw looks
    · exact Triple.throw looks
  exact triple.final (Looked.refl registry.coherent)

/-- The registry is coherent, and the database holds it. -/
structure InSync (saved : SavedState World) : Prop where
  registry : Registry saved.state.ns
  holds : DatabaseHolds saved.database saved.state.ns

/-- A program that saves, or else keeps the records, leaves the database in step. -/
theorem KeepsUnlessSaved.databaseHolds
    {start : NsState World}
    {saved : List CString → Bool}
    {program : NsHandler World (List CString)}
    (keeps : KeepsUnlessSaved start saved program)
    (coherent : Coherent start.ns)
    {database : List FileMetadata}
    (holds : DatabaseHolds database start.ns)
    (isSaved : Bool)
    (unsaved :
      isSaved = false →
        ∀ reply final, program start = .ok reply final → saved reply = false) :
    DatabaseHolds
      (if isSaved then (finalState (program start)).ns.files else database)
      (finalState (program start)).ns := by
  cases isSaved with
  | true =>
      exact .refl _
  | false =>
      have kept := keeps start (Looked.refl coherent)
      simp only [Bool.false_eq_true, ↓reduceIte]
      cases outcome : program start with
      | ok reply final =>
          rw [outcome] at kept
          exact (kept (unsaved rfl reply final outcome)).databaseHolds holds
      | error refusal final =>
          rw [outcome] at kept
          exact kept.databaseHolds holds

/-- Every command keeps the database in step, under the condition. -/
theorem InSync.step
    {saved : SavedState World}
    (inSync : InSync saved)
    (step : SavedStep)
    (keeps : KeepsUsers backend saved step) :
    InSync (savedStep backend saved step) := by
  obtain ⟨registry, holds⟩ := inSync
  cases step with
  | servers storageServers =>
      exact ⟨registry.of_same rfl rfl rfl, holds⟩
  | client now username command =>
      cases command with
      | listing =>
          exact ⟨registry, holds⟩
      | ns command =>
          refine ⟨@Registry.nsStep _ backend _ registry
            (.command now username command), ?_⟩
          refine (keepsRecords_of_keepsUsers registry command
            keeps).databaseHolds registry.coherent holds _ ?_
          intro notSaved reply final outcome
          simpa [ClientCommand.handler, ClientCommand.saves, outcome]
            using notSaved
      | exec msg =>
          refine ⟨registry_handleExec registry msg, ?_⟩
          cases dirty : execDirties username msg saved.state.ns with
          | true =>
              simp only [savedStep, ClientCommand.saves, dirty, ↓reduceIte]
              exact .refl _
          | false =>
              simp only [savedStep, ClientCommand.saves, dirty,
                Bool.false_eq_true, ↓reduceIte]
              exact (keepsRecords_handleExec msg dirty).databaseHolds
                registry.coherent holds false fun _ _ _ _ => rfl

/--
If every grant is of what the user already has, and every refused change is
undone, the database holds after every acknowledged command.
-/
theorem acknowledgedDurable_of_keepsUsers
    (backend : Backend World)
    (world : World)
    (run : List SavedStep)
    (keeps :
      GuardedRun (savedStep backend) (KeepsUsers backend)
        (freshlySaved world) run) :
    AcknowledgedDurable backend world run := by
  rintro before step after rfl _
  have initially : InSync (freshlySaved world) :=
    ⟨registry_nsInit, fun _ member => by cases member⟩
  rw [List.append_cons, GuardedRun.append_iff] at keeps
  exact (GuardedRun.invariant (fun _ step inSync => inSync.step step)
    initially keeps.1).holds

end Runs

/-! ## A run within the condition, and one outside -/

/-- The owner adds a reader, who then looks at the files. -/
def sharedPlan : List SavedStep :=
  [.servers [someStorageServer],
    .client 1 (str "ada") (.ns (.create [str "CREATE", str "plan"])),
    .client 2 (str "ada")
      (.ns (.addAccess [str "ADDACCESS", str "plan", str "eve", str "R"])),
    .client 3 (str "eve") .listing]

/-- The list that `ADDACCESS` has changed is in the database. -/
theorem acknowledgedDurable_sharedPlan :
    AcknowledgedDurable acceptingStorage () sharedPlan ∧
      ((runFrom (savedStep acceptingStorage) (freshlySaved ())
          sharedPlan).database.map FileMetadata.readAccessUsers) =
        [[str "eve"]] :=
  ⟨acknowledgedDurable_of_keepsUsers acceptingStorage () sharedPlan
    (by decide +kernel), by decide +kernel⟩

/-- The owner approves a request, and nothing is saved. -/
def approvedPlan : List SavedStep :=
  [.servers [someStorageServer],
    .client 1 (str "ada") (.ns (.create [str "CREATE", str "plan"])),
    .client 2 (str "eve")
      (.ns (.requestAccess [str "REQUESTACCESS", str "plan", str "R"]))]

/-- The access that "Access approved and saved." is about is not saved. -/
theorem not_acknowledgedDurable_approved :
    ¬∀ run, AcknowledgedDurable acceptingStorage () run := by
  intro always
  have held :=
    always (approvedPlan ++ [.client 3 (str "ada") (.ns approveFirst)])
      approvedPlan (.client 3 (str "ada") (.ns approveFirst)) [] rfl
      (by decide +kernel)
  have granted :
      ∃ file ∈
          (runFrom (savedStep acceptingStorage) (freshlySaved ())
            (approvedPlan ++
              [.client 3 (str "ada") (.ns approveFirst)])).state.ns.files,
        ∀ saved ∈
          (runFrom (savedStep acceptingStorage) (freshlySaved ())
            (approvedPlan ++
              [.client 3 (str "ada") (.ns approveFirst)])).database,
          sameUsers saved file = false := by
    decide +kernel
  obtain ⟨file, member, unsaved⟩ := granted
  obtain ⟨saved, stored, same⟩ := held file member
  have users := same.users
  rw [unsaved saved stored] at users
  cases users

end DistributedDocs
