import DistributedDocs.NameServerPlans

namespace DistributedDocs

/-!
# What a command of the name server can do

One effect for every way a command can end.  Later modules reason by cases on
the effect and never run a command again.
-/

/-- A command of `run_client_loop`. -/
inductive NsCommand where
  | create (msg : List CString)
  | createFolder (msg : List CString)
  | move (msg : List CString)
  | delete (msg : List CString)
  | copy (msg : List CString)
  | reqLoc (msg : List CString)
  | lookup (filename : CString)
  | requestAccess (msg : List CString)
  | approveAccess (msg : List CString)
  | rejectAccess (msg : List CString)
  | addAccess (msg : List CString)
  | remAccess (msg : List CString)
  deriving DecidableEq

/-- The state with another registry. -/
def NsState.onRegistry
    {World : Type}
    (change : NameServer → NameServer)
    (state : NsState World) : NsState World :=
  { state with ns := change state.ns }

section Effects

variable
  {World : Type}
  (backend : Backend World)
  (now : Int)
  (username : CString)

/-- The handler of a command. -/
def NsCommand.handler : NsCommand → NsHandler World (List CString)
  | .create msg => handleCreate backend now username msg
  | .createFolder msg => handleCreateFolder now username msg
  | .move msg => handleMove backend now username msg
  | .delete msg => handleDelete backend username msg
  | .copy msg => handleCopy backend now username msg
  | .reqLoc msg => handleReqLoc now username msg
  | .lookup filename => handleLookup filename
  | .requestAccess msg => handleRequestAccess username msg
  | .approveAccess msg => handleApproveAccess backend username msg
  | .rejectAccess msg => handleRejectAccess username msg
  | .addAccess msg => handleAddAccess backend username msg
  | .remAccess msg => handleRemAccess backend username msg

/-- The registry after `CREATE` has chosen a server and made the entry. -/
def registered
    (filename : CString)
    (target : StorageServerInfo)
    (looked : NsState World) : NsState World :=
  looked.onRegistry fun ns =>
    registerFile filename (newMetadata now username filename target)
      (nsSelectStorageServerBalanced ns).2

/-- The registry after `APPROVEACCESS` has granted what was requested. -/
def granted
    (index position : Nat)
    (req : AccessRequest)
    (looked : NsState World) : NsState World :=
  looked.onRegistry fun ns =>
    changeRequest position (fun entry => { entry with isPending := false })
      (changeFile index
        (fun entry =>
          (fileAddAccess entry req.fromUser req.grantRead req.grantWrite).2)
        ns)

/-- The registry after the grant has been taken back. -/
def ungranted
    (index position : Nat)
    (req : AccessRequest)
    (answered : NsState World) : NsState World :=
  answered.onRegistry fun ns =>
    changeRequest position (fun entry => { entry with isPending := true })
      (changeFile index
        (fun entry => (fileRemoveAccess entry req.fromUser).2) ns)

/-- The `AccessRequest` that `REQUESTACCESS` queues. -/
def newRequest
    (filename : CString)
    (grantRead grantWrite : Bool)
    (file : FileMetadata)
    (ns : NameServer) : AccessRequest where
  id := ns.nextRequestId
  filename := safeStrcpy filename maxFilenameLength
  fromUser := safeStrcpy username maxUsernameLength
  toUser := safeStrcpy file.owner maxUsernameLength
  grantRead := grantRead
  grantWrite := grantWrite
  isPending := true
  document := file.document

/-- The entry a name has in the table. -/
structure EntryAt
    (ns : NameServer)
    (filename : CString)
    (index : Nat)
    (file : FileMetadata) : Prop where
  found : plainScan ns.files filename = some index
  held : ns.files[index]? = some file
  named : file.filename = filename

/-- What a command can do, from `start`. -/
inductive CommandEffect (start : NsState World) :
    NsCommand → NsState World → Prop where
  | looked
      {command : NsCommand}
      {final : NsState World}
      (looked : Looked start final) :
      CommandEffect start command final
  | unplaced
      {msg : List CString}
      {looked : NsState World}
      (known : Looked start looked) :
      CommandEffect start (.create msg)
        (looked.onRegistry fun ns => (nsSelectStorageServerBalanced ns).2)
  | createRefused
      {type filename : CString}
      {rest : List CString}
      {target : StorageServerInfo}
      {refusal : Refusal}
      {looked answered : NsState World}
      (known : Looked start looked)
      (valid : validateFilename filename = true)
      (room : start.ns.files.length < nsMaxFiles)
      (fresh : plainScan start.ns.files filename = none)
      (selected :
        (nsSelectStorageServerBalanced looked.ns).1 = some target)
      (asked :
        createOnStorage backend target username filename
            (registered now username filename target looked) =
          .ok (some refusal) answered) :
      CommandEffect start (.create (type :: filename :: rest))
        (answered.onRegistry fun ns =>
          (removeFileMetadataLocked filename ns).2)
  | created
      {type filename : CString}
      {rest : List CString}
      {target : StorageServerInfo}
      {looked answered : NsState World}
      (known : Looked start looked)
      (valid : validateFilename filename = true)
      (room : start.ns.files.length < nsMaxFiles)
      (fresh : plainScan start.ns.files filename = none)
      (selected :
        (nsSelectStorageServerBalanced looked.ns).1 = some target)
      (asked :
        createOnStorage backend target username filename
            (registered now username filename target looked) =
          .ok none answered) :
      CommandEffect start (.create (type :: filename :: rest))
        (answered.onRegistry (changeServer target.address fun ss =>
          { ss with totalFiles := ss.totalFiles + 1 }))
  | folder
      {type path : CString}
      {rest : List CString}
      {looked : NsState World}
      (known : Looked start looked)
      (valid : nsValidateLogicalPath path = true)
      (room : start.ns.files.length < nsMaxFiles)
      (fresh : plainScan start.ns.files path = none) :
      CommandEffect start (.createFolder (type :: path :: rest))
        (looked.onRegistry
          (registerFile path (newFolder now username path)))
  | moveRefused
      {type srcPath destFolder : CString}
      {rest : List CString}
      {destination baseName finalRoot : CString}
      {source : FileMetadata}
      {plan : List MovePlanEntry}
      {refusal : Refusal}
      {looked final : NsState World}
      (known : Looked start looked)
      (normalized : nsNormalizeDestination destFolder = some destination)
      (planned :
        PlannedMoves start.ns username srcPath destination source baseName
          finalRoot plan)
      (renames :
        renameOnStorage backend [] plan looked = .error refusal final) :
      CommandEffect start (.move (type :: srcPath :: destFolder :: rest))
        final
  | moved
      {type srcPath destFolder : CString}
      {rest : List CString}
      {destination baseName finalRoot : CString}
      {source : FileMetadata}
      {plan : List MovePlanEntry}
      {looked renamed : NsState World}
      (known : Looked start looked)
      (normalized : nsNormalizeDestination destFolder = some destination)
      (planned :
        PlannedMoves start.ns username srcPath destination source baseName
          finalRoot plan)
      (renames : renameOnStorage backend [] plan looked = .ok () renamed) :
      CommandEffect start (.move (type :: srcPath :: destFolder :: rest))
        (renamed.onRegistry (applyMove now username plan))
  | deleteRefused
      {type targetPath : CString}
      {rest : List CString}
      {target : FileMetadata}
      {plan : List DeletePlanEntry}
      {refusal : Refusal}
      {looked final : NsState World}
      (known : Looked start looked)
      (planned :
        PlannedDeletes start.ns username targetPath target plan)
      (deletes :
        deleteOnStorage backend plan looked = .error refusal final) :
      CommandEffect start (.delete (type :: targetPath :: rest)) final
  | deleted
      {type targetPath : CString}
      {rest : List CString}
      {target : FileMetadata}
      {plan : List DeletePlanEntry}
      {looked emptied : NsState World}
      (known : Looked start looked)
      (planned :
        PlannedDeletes start.ns username targetPath target plan)
      (deletes : deleteOnStorage backend plan looked = .ok () emptied) :
      CommandEffect start (.delete (type :: targetPath :: rest))
        (emptied.onRegistry (applyDelete plan))
  | copyAnswered
      {type srcName destName sourceIp sourcePort : CString}
      {rest : List CString}
      {destIdx : Nat}
      {dest : FileMetadata}
      {destSs : StorageServerInfo}
      {answer : SsAnswer}
      {looked answered : NsState World}
      (known : Looked start looked)
      (destination : EntryAt start.ns destName destIdx dest)
      (home : homeOf dest start.ns = some destSs)
      (asked :
        sendAndWait backend destSs.address
            [str "SS_COPY", destName, sourceIp, sourcePort, srcName,
              username] looked =
          .ok answer answered) :
      CommandEffect start (.copy (type :: srcName :: destName :: rest))
        answered
  | copied
      {type srcName destName sourceIp sourcePort : CString}
      {rest : List CString}
      {srcIdx destIdx : Nat}
      {src dest : FileMetadata}
      {destSs : StorageServerInfo}
      {answer : SsAnswer}
      {looked answered : NsState World}
      (known : Looked start looked)
      (source : EntryAt start.ns srcName srcIdx src)
      (destination : EntryAt start.ns destName destIdx dest)
      (home : homeOf dest start.ns = some destSs)
      (asked :
        sendAndWait backend destSs.address
            [str "SS_COPY", destName, sourceIp, sourcePort, srcName,
              username] looked =
          .ok answer answered) :
      CommandEffect start (.copy (type :: srcName :: destName :: rest))
        (answered.onRegistry
          (changeFile srcIdx (accessedMetadata now username)))
  | located
      {msg : List CString}
      {operation filename : CString}
      {index : Nat}
      {file : FileMetadata}
      {looked : NsState World}
      (known : Looked start looked)
      (entry : EntryAt start.ns filename index file) :
      CommandEffect start (.reqLoc msg)
        (looked.onRegistry fun ns =>
          fileCacheStore filename index
            (changeFile index (locatedMetadata now username operation) ns))
  | requested
      {type filename perm : CString}
      {rest : List CString}
      {grantRead grantWrite : Bool}
      {index : Nat}
      {file : FileMetadata}
      {looked : NsState World}
      (known : Looked start looked)
      (valid : validateFilename filename = true)
      (parsed : parsePermissionFlags perm = some (grantRead, grantWrite))
      (entry : EntryAt start.ns filename index file) :
      CommandEffect start
        (.requestAccess (type :: filename :: perm :: rest))
        (looked.onRegistry fun ns =>
          { ns with
            accessRequests :=
              ns.accessRequests ++
                [newRequest username filename grantRead grantWrite file ns]
            nextRequestId := ns.nextRequestId + 1 })
  | approveRefused
      {type idField : CString}
      {rest : List CString}
      {position index : Nat}
      {req : AccessRequest}
      {file : FileMetadata}
      {refusal : Refusal}
      {looked answered : NsState World}
      (known : Looked start looked)
      (request : start.ns.accessRequests[position]? = some req)
      (numbered : req.id = atoi idField)
      (isPending : req.isPending = true)
      (addressed : req.toUser = username)
      (entry : EntryAt start.ns req.filename index file)
      (asked :
        approveOnStorage backend file req
            (granted index position req looked) =
          .ok (some refusal) answered) :
      CommandEffect start (.approveAccess (type :: idField :: rest))
        (ungranted index position req answered)
  | approved
      {type idField : CString}
      {rest : List CString}
      {position index : Nat}
      {req : AccessRequest}
      {file : FileMetadata}
      {looked answered : NsState World}
      (known : Looked start looked)
      (request : start.ns.accessRequests[position]? = some req)
      (numbered : req.id = atoi idField)
      (isPending : req.isPending = true)
      (addressed : req.toUser = username)
      (entry : EntryAt start.ns req.filename index file)
      (asked :
        approveOnStorage backend file req
            (granted index position req looked) =
          .ok none answered) :
      CommandEffect start (.approveAccess (type :: idField :: rest))
        answered
  | rejected
      {msg : List CString}
      {position : Nat}
      {looked : NsState World}
      (known : Looked start looked) :
      CommandEffect start (.rejectAccess msg)
        (looked.onRegistry
          (changeRequest position fun req =>
            { req with isPending := false }))
  | notAdded
      {type filename targetUser permission : CString}
      {rest : List CString}
      {index : Nat}
      {file : FileMetadata}
      {grantRead grantWrite : Bool}
      {looked : NsState World}
      (known : Looked start looked)
      (valid : validateUsername targetUser = true)
      (parsed :
        parsePermissionFlags permission = some (grantRead, grantWrite))
      (entry : EntryAt start.ns filename index file)
      (owned : strncmpEq file.owner username maxUsernameLength = true)
      (other :
        strncmpEq file.owner targetUser maxUsernameLength = false)
      (full :
        (fileAddAccess file targetUser grantRead grantWrite).1 = false) :
      CommandEffect start
        (.addAccess (type :: filename :: targetUser :: permission :: rest))
        (looked.onRegistry
          (changeFile index fun entry =>
            (fileAddAccess entry targetUser grantRead grantWrite).2))
  | addRefused
      {type filename targetUser permission : CString}
      {rest : List CString}
      {index : Nat}
      {file : FileMetadata}
      {grantRead grantWrite : Bool}
      {refusal : Refusal}
      {looked answered : NsState World}
      (known : Looked start looked)
      (valid : validateUsername targetUser = true)
      (parsed :
        parsePermissionFlags permission = some (grantRead, grantWrite))
      (entry : EntryAt start.ns filename index file)
      (owned : strncmpEq file.owner username maxUsernameLength = true)
      (other :
        strncmpEq file.owner targetUser maxUsernameLength = false)
      (asked :
        accessOnStorage backend file
            [str "SS_ADDACCESS", filename, targetUser,
              permToken grantRead grantWrite]
            (looked.onRegistry
              (changeFile index fun entry =>
                (fileAddAccess entry targetUser grantRead grantWrite).2)) =
          .ok (some refusal) answered) :
      CommandEffect start
        (.addAccess (type :: filename :: targetUser :: permission :: rest))
        (answered.onRegistry
          (changeFile index fun entry =>
            (fileRemoveAccess entry targetUser).2))
  | added
      {type filename targetUser permission : CString}
      {rest : List CString}
      {index : Nat}
      {file : FileMetadata}
      {grantRead grantWrite : Bool}
      {looked answered : NsState World}
      (known : Looked start looked)
      (valid : validateUsername targetUser = true)
      (parsed :
        parsePermissionFlags permission = some (grantRead, grantWrite))
      (entry : EntryAt start.ns filename index file)
      (owned : strncmpEq file.owner username maxUsernameLength = true)
      (other :
        strncmpEq file.owner targetUser maxUsernameLength = false)
      (room :
        (fileAddAccess file targetUser grantRead grantWrite).1 = true)
      (asked :
        accessOnStorage backend file
            [str "SS_ADDACCESS", filename, targetUser,
              permToken grantRead grantWrite]
            (looked.onRegistry
              (changeFile index fun entry =>
                (fileAddAccess entry targetUser grantRead grantWrite).2)) =
          .ok none answered) :
      CommandEffect start
        (.addAccess (type :: filename :: targetUser :: permission :: rest))
        answered
  | removeRefused
      {type filename targetUser : CString}
      {rest : List CString}
      {index : Nat}
      {file : FileMetadata}
      {refusal : Refusal}
      {looked answered : NsState World}
      (known : Looked start looked)
      (valid : validateUsername targetUser = true)
      (entry : EntryAt start.ns filename index file)
      (owned : strncmpEq file.owner username maxUsernameLength = true)
      (listed : (fileRemoveAccess file targetUser).1 = true)
      (asked :
        accessOnStorage backend file
            [str "SS_REMACCESS", filename, targetUser]
            (looked.onRegistry
              (changeFile index fun entry =>
                (fileRemoveAccess entry targetUser).2)) =
          .ok (some refusal) answered) :
      CommandEffect start
        (.remAccess (type :: filename :: targetUser :: rest))
        (answered.onRegistry
          (changeFile index fun entry =>
            (fileAddAccess entry targetUser
              (fileAclContains file.readAccessUsers targetUser)
              (fileAclContains file.writeAccessUsers targetUser)).2))
  | removed
      {type filename targetUser : CString}
      {rest : List CString}
      {index : Nat}
      {file : FileMetadata}
      {looked answered : NsState World}
      (known : Looked start looked)
      (valid : validateUsername targetUser = true)
      (entry : EntryAt start.ns filename index file)
      (owned : strncmpEq file.owner username maxUsernameLength = true)
      (listed : (fileRemoveAccess file targetUser).1 = true)
      (asked :
        accessOnStorage backend file
            [str "SS_REMACCESS", filename, targetUser]
            (looked.onRegistry
              (changeFile index fun entry =>
                (fileRemoveAccess entry targetUser).2)) =
          .ok none answered) :
      CommandEffect start
        (.remAccess (type :: filename :: targetUser :: rest))
        answered

/-- A program that has one of the effects of a command, wherever it ends. -/
def Effects
    {α : Type}
    (start : NsState World)
    (command : NsCommand)
    (program : NsHandler World α) : Prop :=
  Triple (Looked start) program
    (fun _ => CommandEffect backend now username start command)
    (CommandEffect backend now username start command)

namespace Effects

variable
  {backend : Backend World}
  {now : Int}
  {username : CString}
  {start : NsState World}
  {command : NsCommand}
  {α β : Type}

theorem pure (value : α) :
    Effects backend now username start command
      (Pure.pure value : NsHandler World α) :=
  Triple.pure fun _ => .looked

theorem refuse
    (code : Int)
    (text : String) :
    Effects backend now username start command
      (nsRefuse code text : NsHandler World α) :=
  Triple.throw fun _ => .looked

/-- First look, then act on what has been found. -/
theorem afterLooking
    {fact : α → Prop}
    {program : NsHandler World α}
    {next : α → NsHandler World β}
    (finds : Finds start fact program)
    (acts :
      ∀ value, fact value →
        Effects backend now username start command (next value)) :
    Effects backend now username start command (program >>= next) :=
  finds.andThen (fun _ => .looked) acts

theorem optional
    {condition p : Prop}
    [Decidable condition]
    {program : NsHandler World PUnit}
    {next : PUnit → NsHandler World β}
    (checked : condition → Finds start (fun _ => p) program)
    (unchecked : ¬condition → p)
    (acts :
      p → Effects backend now username start command (next PUnit.unit)) :
    Effects backend now username start command
      (if condition then program >>= next else next PUnit.unit) := by
  split
  · next holds =>
    exact afterLooking (checked holds) fun _ => acts
  · next fails =>
    exact acts (unchecked fails)

/-- Change the registry and reply. -/
theorem change
    {change : NameServer → NameServer}
    {value : α}
    (allowed :
      ∀ looked, Looked start looked →
        CommandEffect backend now username start command
          (looked.onRegistry change)) :
    Effects backend now username start command
      (do
        changeNs change
        return value) :=
  fun looked known => allowed looked known

end Effects

section Handlers

variable
  {backend : Backend World}
  {now : Int}
  {username : CString}
  {start : NsState World}

theorem effects_handleCreateFolder (msg : List CString) :
    Effects backend now username start (.createFolder msg)
      (handleCreateFolder now username msg) := by
  unfold handleCreateFolder
  split
  · next type path rest =>
    refine .afterLooking Finds.ensure fun _ valid => ?_
    refine .afterLooking Finds.ensure fun _ _ => ?_
    refine .afterLooking
      (Finds.read fun state only => by rw [only.files]) fun _ isRoom => ?_
    refine .afterLooking Finds.ensure fun _ room => ?_
    refine .afterLooking (Finds.lookup_absent path) fun found isFound => ?_
    refine .afterLooking Finds.ensure fun _ absent => ?_
    split
    · refine .optional (p := True)
        (fun _ => (finds_ensureFolder _ _ _).mono fun _ _ => trivial)
        (fun _ => trivial) fun _ => ?_
      refine .change fun looked known => ?_
      exact .folder known valid (by simpa [isRoom] using room)
        (isFound (by simpa using absent))
    · exact .refuse _ _
  · exact .refuse _ _

/-- Asking a storage server returns, and leaves the registry as it is. -/
def OnlyAsks
    {α : Type}
    (program : NsHandler World α) : Prop :=
  ∀ state, ∃ outcome answered,
    program state = .ok outcome answered ∧ answered.ns = state.ns

theorem OnlyAsks.sendAndWait
    (address : Nat)
    (fields : List CString) :
    OnlyAsks (DistributedDocs.sendAndWait backend address fields) :=
  fun _ => ⟨_, _, rfl, rfl⟩

theorem OnlyAsks.pure
    {α : Type}
    (value : α) :
    OnlyAsks (Pure.pure value : NsHandler World α) :=
  fun _ => ⟨_, _, rfl, rfl⟩

theorem OnlyAsks.bind
    {α β : Type}
    {program : NsHandler World α}
    {next : α → NsHandler World β}
    (first : OnlyAsks program)
    (second : ∀ value, OnlyAsks (next value)) :
    OnlyAsks (program >>= next) := by
  intro state
  obtain ⟨value, middle, ran, kept⟩ := first state
  obtain ⟨outcome, answered, ranNext, keptNext⟩ := second value middle
  refine ⟨outcome, answered, ?_, keptNext.trans kept⟩
  simp only [bind_apply, ran]
  exact ranNext

theorem OnlyAsks.ns_eq
    {α : Type}
    {program : NsHandler World α}
    (onlyAsks : OnlyAsks program)
    {state answered : NsState World}
    {outcome : α}
    (asked : program state = .ok outcome answered) :
    answered.ns = state.ns := by
  obtain ⟨_, _, ran, kept⟩ := onlyAsks state
  rw [asked] at ran
  cases ran
  exact kept

theorem OnlyAsks.ne_error
    {α : Type}
    {program : NsHandler World α}
    (onlyAsks : OnlyAsks program)
    {state final : NsState World}
    {refusal : Refusal} :
    program state ≠ .error refusal final := by
  intro failed
  obtain ⟨_, _, ran, _⟩ := onlyAsks state
  rw [failed] at ran
  cases ran

theorem onlyAsks_createOnStorage
    (target : StorageServerInfo)
    (filename : CString) :
    OnlyAsks (createOnStorage backend target username filename) := by
  unfold createOnStorage
  split
  · exact .pure _
  · exact .bind (.sendAndWait _ _) fun _ => .pure _

theorem onlyAsks_accessOnStorage
    (file : FileMetadata)
    (request : List CString) :
    OnlyAsks (accessOnStorage backend file request) := by
  unfold accessOnStorage
  refine .bind (fun _ => ⟨_, _, rfl, rfl⟩) fun home => ?_
  split
  · exact .bind (.sendAndWait _ _) fun _ => .pure _
  · exact .pure _

theorem onlyAsks_approveOnStorage
    (file : FileMetadata)
    (req : AccessRequest) :
    OnlyAsks (approveOnStorage backend file req) := by
  unfold approveOnStorage
  refine .bind (fun _ => ⟨_, _, rfl, rfl⟩) fun home => ?_
  split
  · refine .bind (.sendAndWait _ _) fun answer => ?_
    split
    · exact .pure _
    · exact .pure _
    · split <;> exact .pure _
    · exact .pure _
  · exact .pure _

/-- Programs that leave the registry as it is, wherever they end. -/
def SameRegistry (before after : NsState World) : Prop :=
  after.ns = before.ns

theorem isEffect_sameRegistry :
    IsEffect (σ := NsState World) SameRegistry where
  refl _ := rfl
  trans first second := second.trans first

theorem sameRegistry_rollbackRenames (plan : List MovePlanEntry) :
    StaysWithin SameRegistry (rollbackRenames backend plan) := by
  induction plan with
  | nil =>
      exact .pure isEffect_sameRegistry _
  | cons entry rest inductionHypothesis =>
      unfold rollbackRenames
      split
      · refine .bind isEffect_sameRegistry ?_ fun _ => inductionHypothesis
        exact .modifyGet fun _ => rfl
      · exact inductionHypothesis

theorem sameRegistry_renameOnStorage
    (done plan : List MovePlanEntry) :
    StaysWithin SameRegistry (renameOnStorage backend done plan) := by
  induction plan generalizing done with
  | nil =>
      exact .pure isEffect_sameRegistry _
  | cons entry rest inductionHypothesis =>
      unfold renameOnStorage
      split
      · exact inductionHypothesis done
      · refine .bind isEffect_sameRegistry
          (.modifyGet fun _ => rfl) fun answer => ?_
        split
        · exact .bind isEffect_sameRegistry
            (sameRegistry_rollbackRenames done)
            fun _ => .throw isEffect_sameRegistry _
        · exact inductionHypothesis (entry :: done)

theorem sameRegistry_deleteOnStorage (plan : List DeletePlanEntry) :
    StaysWithin SameRegistry (deleteOnStorage backend plan) := by
  induction plan with
  | nil =>
      exact .pure isEffect_sameRegistry _
  | cons entry rest inductionHypothesis =>
      unfold deleteOnStorage
      split
      · exact inductionHypothesis
      · refine .bind isEffect_sameRegistry
          (.modifyGet fun _ => rfl) fun answer => ?_
        split
        · exact .throw isEffect_sameRegistry _
        · exact inductionHypothesis

theorem effects_handleCreate (msg : List CString) :
    Effects backend now username start (.create msg)
      (handleCreate backend now username msg) := by
  unfold handleCreate createTarget
  split
  · next type filename rest =>
    refine .afterLooking Finds.ensure fun _ valid => ?_
    refine .afterLooking Finds.ensure fun _ _ => ?_
    simp only [bind_assoc]
    refine .afterLooking
      (Finds.read fun state only => by rw [only.files]) fun _ isRoom => ?_
    refine .afterLooking Finds.ensure fun _ room => ?_
    refine .afterLooking (Finds.lookup_absent filename)
      fun found isFound => ?_
    refine .afterLooking Finds.ensure fun _ absent => ?_
    refine .afterLooking
      (Finds.read fun state only => by
        unfold OnlyCacheChanged at only
        rw [only]) fun _ _ => ?_
    refine .afterLooking Finds.ensure fun _ _ => ?_
    intro looked known
    simp only [onNs, bind_apply, modifyGet_apply]
    cases selected : (nsSelectStorageServerBalanced looked.ns).1 with
    | none =>
        exact .unplaced known
    | some target =>
        have spaceLeft : start.ns.files.length < nsMaxFiles := by
          simpa [isRoom] using room
        have fresh := isFound (by simpa using absent)
        simp only [pure_apply, changeNs, modify_apply]
        generalize asked :
          createOnStorage backend target username filename _ = result
        cases result with
        | error refusal answered =>
            exact absurd asked
              (onlyAsks_createOnStorage target filename).ne_error
        | ok outcome answered =>
            cases outcome with
            | none =>
                exact .created known valid spaceLeft fresh selected asked
            | some refusal =>
                exact .createRefused known valid spaceLeft fresh selected
                  asked
  · exact .refuse _ _

/-- `MOVE` has made its plan and asks the storage servers. -/
structure MoveAttempt
    (username : CString)
    (start : NsState World)
    (srcPath destFolder : CString)
    (plan : List MovePlanEntry)
    (looked : NsState World) : Prop where
  known : Looked start looked
  planned :
    ∃ destination source baseName finalRoot,
      nsNormalizeDestination destFolder = some destination ∧
        PlannedMoves start.ns username srcPath destination source baseName
          finalRoot plan

/-- `MOVE` replies OK if all renames are made, and with an error otherwise. -/
theorem triple_handleMove (msg : List CString) :
    Triple (Looked start) (handleMove backend now username msg)
      (fun _ final =>
        ∃ type srcPath destFolder rest plan looked renamed,
          msg = type :: srcPath :: destFolder :: rest ∧
            MoveAttempt username start srcPath destFolder plan looked ∧
              renameOnStorage backend [] plan looked = .ok () renamed ∧
                final = renamed.onRegistry (applyMove now username plan))
      (fun final =>
        Looked start final ∨
          ∃ type srcPath destFolder rest plan looked refusal,
            msg = type :: srcPath :: destFolder :: rest ∧
              MoveAttempt username start srcPath destFolder plan looked ∧
                renameOnStorage backend [] plan looked =
                  .error refusal final) := by
  have leaves :
      ∀ {other : NsState World → Prop} (final : NsState World),
        Looked start final → Looked start final ∨ other final :=
    fun _ => Or.inl
  unfold handleMove
  split
  · next type srcPath destFolder rest =>
    refine Finds.ensure.andThen leaves fun _ _ => ?_
    refine Finds.ensure.andThen leaves fun _ _ => ?_
    split
    · next destination normalized =>
      refine (finds_planMove destination).andThen leaves
        fun plan isPlanned => ?_
      obtain ⟨_, source, baseName, finalRoot, planned⟩ := isPlanned
      intro looked known
      have attempt :
          MoveAttempt username start srcPath destFolder plan looked :=
        ⟨known, destination, source, baseName, finalRoot, normalized,
          planned⟩
      rw [bind_apply]
      cases renames : renameOnStorage backend [] plan looked with
      | error refusal final =>
          exact Or.inr ⟨type, srcPath, destFolder, rest, plan, looked,
            refusal, rfl, attempt, renames⟩
      | ok _ renamed =>
          exact ⟨type, srcPath, destFolder, rest, plan, looked, renamed, rfl,
            attempt, renames, rfl⟩
    · exact Triple.throw leaves
  · exact Triple.throw leaves

theorem effects_handleMove (msg : List CString) :
    Effects backend now username start (.move msg)
      (handleMove backend now username msg) := by
  refine (triple_handleMove msg).mono (fun _ => id) ?_ ?_
  · rintro _ _ ⟨type, srcPath, destFolder, rest, plan, looked, renamed, rfl,
      ⟨known, destination, source, baseName, finalRoot, normalized, planned⟩,
      renames, rfl⟩
    exact .moved known normalized planned renames
  · rintro final (looked | ⟨type, srcPath, destFolder, rest, plan, looked,
      refusal, rfl, ⟨known, destination, source, baseName, finalRoot,
      normalized, planned⟩, renames⟩)
    · exact .looked looked
    · exact .moveRefused known normalized planned renames

theorem effects_handleDelete (msg : List CString) :
    Effects backend now username start (.delete msg)
      (handleDelete backend username msg) := by
  unfold handleDelete
  split
  · next type targetPath rest =>
    refine .afterLooking Finds.ensure fun _ _ => ?_
    refine .afterLooking Finds.ensure fun _ _ => ?_
    refine .afterLooking (finds_planDelete targetPath)
      fun plan isPlanned => ?_
    obtain ⟨target, planned⟩ := isPlanned
    intro looked known
    rw [bind_apply]
    cases deletes : deleteOnStorage backend plan looked with
    | error refusal final =>
        exact .deleteRefused known planned deletes
    | ok _ emptied =>
        have ended :
            CommandEffect backend now username start
              (.delete (type :: targetPath :: rest))
              (emptied.onRegistry (applyDelete plan)) :=
          .deleted known planned deletes
        simp only [bind_apply, changeNs, modify_apply]
        by_cases single : plan.length = 1
        · simp only [single, ↓reduceIte]
          exact ended
        · simp only [single, ↓reduceIte]
          exact ended
  · exact .refuse _ _

theorem entryAt_of_lookup
    {ns : NameServer}
    {filename : CString}
    {index : Nat}
    {file : FileMetadata}
    (found :
      plainScan ns.files filename = some index ∧
        ns.files[index]? = some file ∧ file.filename = filename) :
    EntryAt ns filename index file :=
  ⟨found.1, found.2.1, found.2.2⟩

theorem effects_handleReqLoc (msg : List CString) :
    Effects backend now username start (.reqLoc msg)
      (handleReqLoc now username msg) := by
  have located :
      ∀ operation filename,
        Effects backend now username start (.reqLoc msg)
          (locateFile now username operation filename) := by
    intro operation filename
    unfold locateFile
    refine .afterLooking Finds.ensure fun _ _ => ?_
    refine .afterLooking Finds.ensure fun _ _ => ?_
    refine .afterLooking (Finds.lookup_entry filename)
      fun found isFound => ?_
    split
    · next index file =>
      split
      · refine .afterLooking Finds.ensure fun _ _ => ?_
        refine .change fun looked known => ?_
        exact .located known (entryAt_of_lookup (isFound index file rfl))
      · exact .refuse _ _
    · exact .refuse _ _
  unfold handleReqLoc
  split
  · exact located _ _
  · exact located _ _
  · exact .refuse _ _

theorem effects_handleLookup (filename : CString) :
    Effects backend now username start (.lookup filename)
      (handleLookup filename) := by
  unfold handleLookup
  refine .afterLooking (Finds.lookup_entry filename) fun found _ => ?_
  split
  · exact .pure _
  · exact .refuse _ _

theorem finds_copyEntries (srcName destName : CString) :
    Finds start
      (fun entries =>
        EntryAt start.ns srcName entries.1.1 entries.1.2 ∧
          ∃ destIdx, EntryAt start.ns destName destIdx entries.2)
      (copyEntries username srcName destName) := by
  unfold copyEntries
  refine .bind (Finds.lookup_entry srcName) fun srcFile isSource => ?_
  refine .bind (Finds.lookup_entry destName) fun destFile isDest => ?_
  split
  · next srcIdx src =>
    split
    · next destIdx dest =>
      refine .bind Finds.ensure fun _ _ => ?_
      refine .bind Finds.ensure fun _ _ => ?_
      exact .pure
        ⟨entryAt_of_lookup (isSource srcIdx src rfl), destIdx,
          entryAt_of_lookup (isDest destIdx dest rfl)⟩
    · exact .refuse _ _
  · exact .refuse _ _

theorem effects_handleCopy (msg : List CString) :
    Effects backend now username start (.copy msg)
      (handleCopy backend now username msg) := by
  unfold handleCopy
  split
  · next type srcName destName rest =>
    refine .afterLooking Finds.ensure fun _ _ => ?_
    refine .afterLooking Finds.ensure fun _ _ => ?_
    refine .afterLooking (finds_copyEntries srcName destName)
      fun entries areEntries => ?_
    obtain ⟨⟨srcIdx, src⟩, dest⟩ := entries
    obtain ⟨isSource, destIdx, isDest⟩ := areEntries
    simp only
    refine .afterLooking
      (Finds.read fun state only => homeOf_onlyCacheChanged only dest)
      fun home isHome => ?_
    split
    · next destSs =>
      refine .afterLooking
        (Finds.read fun state only => homeOf_onlyCacheChanged only src)
        fun srcHome _ => ?_
      split
      · next srcSs =>
        intro looked known
        simp only [bind_apply]
        generalize asked : sendAndWait backend destSs.address _ looked = result
        cases result with
        | error refusal answered =>
            exact absurd asked (OnlyAsks.sendAndWait _ _).ne_error
        | ok answer answered =>
            cases answer with
            | failed status =>
                exact .copyAnswered known isDest isHome.symm asked
            | unparsable =>
                exact .copyAnswered known isDest isHome.symm asked
            | message fields =>
                cases accepted : isOkMessage fields with
                | false =>
                    simp only [accepted]
                    exact .copyAnswered known isDest isHome.symm asked
                | true =>
                    simp only [accepted]
                    exact .copied known isSource isDest isHome.symm asked
      · exact .refuse _ _
    · exact .refuse _ _
  · exact .refuse _ _

theorem effects_handleRequestAccess (msg : List CString) :
    Effects backend now username start (.requestAccess msg)
      (handleRequestAccess username msg) := by
  unfold handleRequestAccess
  split
  · next type filename perm rest =>
    refine .afterLooking Finds.ensure fun _ valid => ?_
    split
    · next grantRead grantWrite parsed =>
      refine .afterLooking (Finds.lookup_entry filename)
        fun found isFound => ?_
      split
      · next index file =>
        refine .afterLooking
          (Finds.read fun state only => by
            unfold OnlyCacheChanged at only
            rw [only]) fun _ _ => ?_
        refine .afterLooking Finds.ensure fun _ _ => ?_
        refine .change fun looked known => ?_
        exact .requested known valid parsed
          (entryAt_of_lookup (isFound index file rfl))
      · exact .refuse _ _
    · exact .refuse _ _
  · exact .refuse _ _

theorem effects_handleApproveAccess (msg : List CString) :
    Effects backend now username start (.approveAccess msg)
      (handleApproveAccess backend username msg) := by
  unfold handleApproveAccess
  split
  · next type idField rest =>
    refine .afterLooking
      (Finds.read fun state only => by
        unfold OnlyCacheChanged at only
        rw [only]) fun request isRequest => ?_
    split
    · next position req =>
      rw [eq_comm, Option.bind_eq_some_iff] at isRequest
      obtain ⟨other, isFirst, held⟩ := isRequest
      rw [Option.map_eq_some_iff] at held
      obtain ⟨entry, requested, same⟩ := held
      cases same
      have numbered : req.id = atoi idField := by
        obtain ⟨bound, sameId, _⟩ :=
          List.findIdx?_eq_some_iff_getElem.mp isFirst
        rw [List.getElem?_eq_getElem bound] at requested
        rw [← Option.some.inj requested]
        exact of_decide_eq_true sameId
      refine .afterLooking Finds.ensure fun _ allowed => ?_
      simp only [Bool.and_eq_true, decide_eq_true_eq] at allowed
      refine .afterLooking (Finds.lookup_entry req.filename)
        fun found isFound => ?_
      split
      · next index file =>
        have isEntry := entryAt_of_lookup (isFound index file rfl)
        intro looked known
        simp only [bind_apply, changeNs, modify_apply]
        generalize asked : approveOnStorage backend file req _ = result
        cases result with
        | error refusal answered =>
            exact absurd asked (onlyAsks_approveOnStorage file req).ne_error
        | ok outcome answered =>
            cases outcome with
            | none =>
                exact .approved known requested numbered allowed.1 allowed.2
                  isEntry asked
            | some refusal =>
                exact .approveRefused known requested numbered allowed.1
                  allowed.2 isEntry asked
      · exact .refuse _ _
    · exact .refuse _ _
  · exact .refuse _ _

theorem effects_handleRejectAccess (msg : List CString) :
    Effects backend now username start (.rejectAccess msg)
      (handleRejectAccess username msg) := by
  unfold handleRejectAccess
  split
  · refine .afterLooking
      (Finds.read fun state only => by
        unfold OnlyCacheChanged at only
        rw [only]) fun request _ => ?_
    split
    · exact .change fun looked known => .rejected known
    · exact .refuse _ _
  · exact .refuse _ _

theorem effects_handleAddAccess (msg : List CString) :
    Effects backend now username start (.addAccess msg)
      (handleAddAccess backend username msg) := by
  unfold handleAddAccess
  split
  · next type filename targetUser permission rest =>
    refine .afterLooking Finds.ensure fun _ valid => ?_
    simp only [Bool.and_eq_true] at valid
    split
    · next grantRead grantWrite parsed =>
      refine .afterLooking Finds.ensure fun _ _ => ?_
      refine .afterLooking (Finds.lookup_entry filename)
        fun found isFound => ?_
      split
      · next index file =>
        have entry := entryAt_of_lookup (isFound index file rfl)
        refine .afterLooking Finds.ensure fun _ owned => ?_
        split
        · exact .pure _
        · next other =>
          simp only [Bool.not_eq_true] at other
          intro looked known
          simp only [bind_apply, changeNs, modify_apply]
          cases room :
              (fileAddAccess file targetUser grantRead grantWrite).1 with
          | false =>
              exact .notAdded known valid.2 parsed entry owned other room
          | true =>
              simp only [nsEnsure, ↓reduceIte, pure_apply]
              generalize asked : accessOnStorage backend file _ _ = result
              cases result with
              | error refusal answered =>
                  exact absurd asked
                    (onlyAsks_accessOnStorage file _).ne_error
              | ok outcome answered =>
                  cases outcome with
                  | none =>
                      exact .added known valid.2 parsed entry owned other
                        room asked
                  | some refusal =>
                      exact .addRefused known valid.2 parsed entry owned
                        other asked
      · exact .refuse _ _
    · exact .refuse _ _
  · exact .refuse _ _

theorem effects_handleRemAccess (msg : List CString) :
    Effects backend now username start (.remAccess msg)
      (handleRemAccess backend username msg) := by
  unfold handleRemAccess
  split
  · next type filename targetUser rest =>
    refine .afterLooking Finds.ensure fun _ valid => ?_
    simp only [Bool.and_eq_true] at valid
    refine .afterLooking Finds.ensure fun _ _ => ?_
    refine .afterLooking (Finds.lookup_entry filename)
      fun found isFound => ?_
    split
    · next index file =>
      have entry := entryAt_of_lookup (isFound index file rfl)
      refine .afterLooking Finds.ensure fun _ owned => ?_
      refine .afterLooking Finds.ensure fun _ listed => ?_
      intro looked known
      simp only [bind_apply, changeNs, modify_apply]
      generalize asked : accessOnStorage backend file _ _ = result
      cases result with
      | error refusal answered =>
          exact absurd asked (onlyAsks_accessOnStorage file _).ne_error
      | ok outcome answered =>
          cases outcome with
          | none =>
              exact .removed known valid.2 entry owned listed asked
          | some refusal =>
              exact .removeRefused known valid.2 entry owned listed asked
    · exact .refuse _ _
  · exact .refuse _ _

variable (backend now username) in
/-- Every command has one of its effects. -/
theorem effect_of_command
    (coherent : Coherent start.ns)
    (command : NsCommand) :
    CommandEffect backend now username start command
      (finalState (command.handler backend now username start)) := by
  have effects :
      Effects backend now username start command
        (command.handler backend now username) := by
    cases command with
    | create msg => exact effects_handleCreate msg
    | createFolder msg => exact effects_handleCreateFolder msg
    | move msg => exact effects_handleMove msg
    | delete msg => exact effects_handleDelete msg
    | copy msg => exact effects_handleCopy msg
    | reqLoc msg => exact effects_handleReqLoc msg
    | lookup filename => exact effects_handleLookup filename
    | requestAccess msg => exact effects_handleRequestAccess msg
    | approveAccess msg => exact effects_handleApproveAccess msg
    | rejectAccess msg => exact effects_handleRejectAccess msg
    | addAccess msg => exact effects_handleAddAccess msg
    | remAccess msg => exact effects_handleRemAccess msg
  exact effects.final (Looked.refl coherent)

end Handlers

end Effects

end DistributedDocs
