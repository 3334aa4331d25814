import DistributedDocs.SavedPlaces

namespace DistributedDocs

/-!
# Commands that come back with a saved position

`ADDACCESS`, `REMACCESS`, `APPROVEACCESS` and `COPY` give `state_lock` up while
a storage server answers, and then use the position in `files[]` that they
looked up before.  Each is two steps here, with steps of other clients between
them.  `DELETE` fills its hole with the last entry, and is the only command
after which a saved position can denote another file.
-/

/-- What a command still has to do when the storage server has answered. -/
inductive LateUpdate where
  | addAccess (targetUser : CString)
  | remAccess (targetUser : CString) (hadRead hadWrite : Bool)
  | approveAccess (position : Nat) (fromUser : CString)
  | copy (username : CString)
  deriving DecidableEq

/-- A command that waits for a storage server; `index` is its saved position. -/
structure WaitingCommand where
  index : Nat
  file : FileMetadata
  request : List CString
  update : LateUpdate
  deriving DecidableEq

/-- A command has replied at once, or waits. -/
inductive Begun where
  | replied (reply : List CString)
  | waits (waiting : WaitingCommand)

/-- The late change of the entry: a rollback, or the access stamp of `COPY`. -/
def LateUpdate.onEntry
    (now : Int)
    (succeeded : Bool)
    (update : LateUpdate)
    (entry : FileMetadata) : FileMetadata :=
  match update, succeeded with
  | .addAccess targetUser, false => (fileRemoveAccess entry targetUser).2
  | .remAccess targetUser hadRead hadWrite, false =>
      (fileAddAccess entry targetUser hadRead hadWrite).2
  | .approveAccess _ fromUser, false => (fileRemoveAccess entry fromUser).2
  | .copy username, true => accessedMetadata now username entry
  | _, _ => entry

/-- A refused approval makes the request pending again. -/
def LateUpdate.onRequests
    (succeeded : Bool)
    (update : LateUpdate)
    (ns : NameServer) : NameServer :=
  match update, succeeded with
  | .approveAccess position _, false =>
      changeRequest position (fun req => { req with isPending := true }) ns
  | _, _ => ns

/-- The second step; `succeeded` is what the answer has been taken for. -/
def lateUpdate
    (now : Int)
    (succeeded : Bool)
    (waiting : WaitingCommand)
    (ns : NameServer) : NameServer :=
  waiting.update.onRequests succeeded
    (changeFile waiting.index (waiting.update.onEntry now succeeded) ns)

section Begin

variable {World : Type}

/-- `ADDACCESS`, until it gives `state_lock` up. -/
def beginAddAccess
    (username : CString)
    (msg : List CString) : NsHandler World Begun := do
  match msg with
  | _ :: filename :: targetUser :: permission :: _ =>
      nsEnsure (validateFilename filename && validateUsername targetUser)
        errInvalidRequest "Invalid filename or username for ADDACCESS."
      let some (grantRead, grantWrite) := parsePermissionFlags permission
        | nsRefuse errInvalidRequest
            "Invalid permission token for ADDACCESS."
      nsEnsure (username ≠ []) errInternalError "Client identity unknown."
      let some (index, file) ← lookupMetadata filename
        | nsRefuse errFileNotFound "File not found for ADDACCESS."
      nsEnsure (strncmpEq file.owner username maxUsernameLength)
        errPermissionDenied "Only the owner may modify access."
      if strncmpEq file.owner targetUser maxUsernameLength then
        return .replied
          (okReply
            (str "Owner '" ++ targetUser ++ str "' already has full access."))
      else
        let (added, _) := fileAddAccess file targetUser grantRead grantWrite
        changeNs
          (changeFile index fun entry =>
            (fileAddAccess entry targetUser grantRead grantWrite).2)
        nsEnsure added errInternalError "Failed to update ACL."
        return .waits
          ⟨index, file,
            [str "SS_ADDACCESS", filename, targetUser,
              permToken grantRead grantWrite],
            .addAccess targetUser⟩
  | _ =>
      nsRefuse errInvalidRequest "Missing parameters for ADDACCESS."

/-- `REMACCESS`, until it gives `state_lock` up. -/
def beginRemAccess
    (username : CString)
    (msg : List CString) : NsHandler World Begun := do
  match msg with
  | _ :: filename :: targetUser :: _ =>
      nsEnsure (validateFilename filename && validateUsername targetUser)
        errInvalidRequest "Invalid filename or username for REMACCESS."
      nsEnsure (username ≠ []) errInternalError "Client identity unknown."
      let some (index, file) ← lookupMetadata filename
        | nsRefuse errFileNotFound "File not found for REMACCESS."
      nsEnsure (strncmpEq file.owner username maxUsernameLength)
        errPermissionDenied "Only the owner may modify access."
      nsEnsure (fileRemoveAccess file targetUser).1
        errUserNotFound "User had no explicit access."
      changeNs
        (changeFile index fun entry => (fileRemoveAccess entry targetUser).2)
      return .waits
        ⟨index, file, [str "SS_REMACCESS", filename, targetUser],
          .remAccess targetUser
            (fileAclContains file.readAccessUsers targetUser)
            (fileAclContains file.writeAccessUsers targetUser)⟩
  | _ =>
      nsRefuse errInvalidRequest "Missing parameters for REMACCESS."

/-- `APPROVEACCESS`, until it gives `state_lock` up. -/
def beginApproveAccess
    (username : CString)
    (msg : List CString) : NsHandler World Begun := do
  match msg with
  | _ :: idField :: _ =>
      let reqId := atoi idField
      let found ← readNs fun ns =>
        (ns.accessRequests.findIdx? fun req => req.id = reqId).bind
          fun position => ns.accessRequests[position]?.map (position, ·)
      let some (position, req) := found
        | nsRefuse errInvalidRequest
            "Invalid request ID or not file owner."
      nsEnsure (req.isPending && req.toUser = username)
        errInvalidRequest "Invalid request ID or not file owner."
      let some (index, file) ← lookupMetadata req.filename
        | nsRefuse errFileNotFound
            "File for this request no longer exists."
      changeNs
        (changeFile index fun entry =>
          (fileAddAccess entry req.fromUser req.grantRead
            req.grantWrite).2)
      changeNs
        (changeRequest position fun entry =>
          { entry with isPending := false })
      let token := permToken req.grantRead req.grantWrite
      return .waits
        ⟨index, file,
          [str "SS_ADDACCESS", req.filename, req.fromUser,
            if token = [] then str "R" else token],
          .approveAccess position req.fromUser⟩
  | _ =>
      nsRefuse errInvalidRequest "Usage: APPROVEACCESS <request_id>"

/-- `COPY`, until it gives `state_lock` up; the saved position is the source's. -/
def beginCopy
    (username : CString)
    (msg : List CString) : NsHandler World Begun := do
  match msg with
  | _ :: srcName :: destName :: _ =>
      nsEnsure (validateFilename srcName && validateFilename destName)
        errInvalidRequest "Invalid filename(s) for COPY."
      nsEnsure (username ≠ []) errInternalError "Client identity unknown."
      let ((srcIdx, src), dest) ← copyEntries username srcName destName
      let some destSs ← readNs (homeOf dest)
        | nsRefuse errInternalError "Destination storage server offline"
      let some srcSs ← readNs (homeOf src)
        | nsRefuse errInternalError "Source storage server offline"
      let (sourceIp, sourcePort) :=
        if srcSs.address = destSs.address then (str "LOCAL", str "0")
        else (srcSs.clientIp, decimal srcSs.clientPort)
      return .waits
        ⟨srcIdx, src,
          [str "SS_COPY", destName, sourceIp, sourcePort, srcName, username],
          .copy username⟩
  | _ =>
      nsRefuse errInvalidRequest "Usage: COPY <source> <dest>"

end Begin

/-- The commands that wait for a storage server without `state_lock`. -/
inductive SlowCommand where
  | addAccess (msg : List CString)
  | remAccess (msg : List CString)
  | approveAccess (msg : List CString)
  | copy (msg : List CString)
  deriving DecidableEq

/-- The first step of a command. -/
def SlowCommand.begin
    {World : Type}
    (username : CString) : SlowCommand → NsHandler World Begun
  | .addAccess msg => beginAddAccess username msg
  | .remAccess msg => beginRemAccess username msg
  | .approveAccess msg => beginApproveAccess username msg
  | .copy msg => beginCopy username msg

/-- The command that is done in two steps. -/
def SlowCommand.whole : SlowCommand → NsCommand
  | .addAccess msg => .addAccess msg
  | .remAccess msg => .remAccess msg
  | .approveAccess msg => .approveAccess msg
  | .copy msg => .copy msg

/-! ## The two steps together are the command -/

section Together

variable
  {World : Type}
  {backend : Backend World}
  {now : Int}
  {username : CString}

/-- The handler does the first step, asks, and does the second step. -/
def SplitsInto
    (now : Int)
    (handler : NsHandler World (List CString))
    (begins : NsHandler World Begun) : Prop :=
  ∀ state,
    match begins state with
    | .ok (.waits waiting) middle =>
        ∃ succeeded,
          (finalState (handler state)).ns =
            lateUpdate now succeeded waiting middle.ns
    | ended => finalState (handler state) = finalState ended

namespace SplitsInto

theorem bind
    {α : Type}
    {program : NsHandler World α}
    {next : α → NsHandler World (List CString)}
    {begins : α → NsHandler World Begun}
    (splits : ∀ value, SplitsInto now (next value) (begins value)) :
    SplitsInto now (program >>= next) (program >>= begins) := by
  intro state
  simp only [bind_apply]
  cases program state with
  | ok value middle => exact splits value middle
  | error refusal middle => rfl

theorem refuse
    (code : Int)
    (text : String) :
    SplitsInto now (nsRefuse code text : NsHandler World (List CString))
      (nsRefuse code text) :=
  fun _ => rfl

theorem replied (reply : List CString) :
    SplitsInto now (Pure.pure reply : NsHandler World (List CString))
      (Pure.pure (.replied reply)) :=
  fun _ => rfl

/-- The storage server is asked, and then comes the second step. -/
theorem waits
    {α : Type}
    {program : NsHandler World α}
    {next : α → NsHandler World (List CString)}
    {waiting : WaitingCommand}
    (onlyAsks : OnlyAsks program)
    (finishes :
      ∀ outcome answered, ∃ succeeded,
        (finalState (next outcome answered)).ns =
          lateUpdate now succeeded waiting answered.ns) :
    SplitsInto now (program >>= next) (Pure.pure (.waits waiting)) := by
  intro state
  obtain ⟨outcome, answered, ran, kept⟩ := onlyAsks state
  obtain ⟨succeeded, finished⟩ := finishes outcome answered
  refine ⟨succeeded, ?_⟩
  rw [bind_apply, ran]
  exact kept ▸ finished

end SplitsInto

/-- A second step that changes no entry changes nothing. -/
theorem changeFile_self
    (index : Nat)
    (ns : NameServer) :
    changeFile index (fun file => file) ns = ns := by
  have same : ns.files.modify index (fun file => file) = ns.files :=
    List.modify_id index ns.files
  rw [changeFile, same]

theorem splitsInto_addAccess (msg : List CString) :
    SplitsInto now (handleAddAccess backend username msg)
      (beginAddAccess username msg) := by
  unfold handleAddAccess beginAddAccess
  rcases msg with
    _ | ⟨type, _ | ⟨filename, _ | ⟨targetUser, _ | ⟨permission, rest⟩⟩⟩⟩
  · exact .refuse _ _
  · exact .refuse _ _
  · exact .refuse _ _
  · exact .refuse _ _
  · refine .bind fun _ => ?_
    cases parsePermissionFlags permission with
    | none => exact .refuse _ _
    | some permissions =>
        refine .bind fun _ => .bind fun found => ?_
        rcases found with _ | ⟨index, file⟩
        · exact .refuse _ _
        · refine .bind fun _ => ?_
          by_cases isOwner :
              strncmpEq file.owner targetUser maxUsernameLength = true
          · simp only [isOwner, ↓reduceIte]
            exact .replied _
          · simp only [isOwner, Bool.false_eq_true, ↓reduceIte]
            refine .bind fun _ => .bind fun _ => ?_
            refine .waits (onlyAsks_accessOnStorage _ _)
              fun outcome answered => ?_
            cases outcome with
            | none => exact ⟨true, (changeFile_self _ _).symm⟩
            | some refusal => exact ⟨false, rfl⟩

theorem splitsInto_remAccess (msg : List CString) :
    SplitsInto now (handleRemAccess backend username msg)
      (beginRemAccess username msg) := by
  unfold handleRemAccess beginRemAccess
  rcases msg with _ | ⟨type, _ | ⟨filename, _ | ⟨targetUser, rest⟩⟩⟩
  · exact .refuse _ _
  · exact .refuse _ _
  · exact .refuse _ _
  · refine .bind fun _ => .bind fun _ => .bind fun found => ?_
    rcases found with _ | ⟨index, file⟩
    · exact .refuse _ _
    · refine .bind fun _ => .bind fun _ => .bind fun _ => ?_
      refine .waits (onlyAsks_accessOnStorage _ _) fun outcome answered => ?_
      cases outcome with
      | none => exact ⟨true, (changeFile_self _ _).symm⟩
      | some refusal => exact ⟨false, rfl⟩

theorem splitsInto_approveAccess (msg : List CString) :
    SplitsInto now (handleApproveAccess backend username msg)
      (beginApproveAccess username msg) := by
  unfold handleApproveAccess beginApproveAccess
  rcases msg with _ | ⟨type, _ | ⟨idField, rest⟩⟩
  · exact .refuse _ _
  · exact .refuse _ _
  · refine .bind fun request => ?_
    rcases request with _ | ⟨position, req⟩
    · exact .refuse _ _
    · refine .bind fun _ => .bind fun found => ?_
      rcases found with _ | ⟨index, file⟩
      · exact .refuse _ _
      · refine .bind fun _ => .bind fun _ => ?_
        refine .waits (onlyAsks_approveOnStorage _ _) fun outcome answered => ?_
        cases outcome with
        | none => exact ⟨true, (changeFile_self _ _).symm⟩
        | some refusal => exact ⟨false, rfl⟩

theorem splitsInto_copy (msg : List CString) :
    SplitsInto now (handleCopy backend now username msg)
      (beginCopy username msg) := by
  unfold handleCopy beginCopy
  rcases msg with _ | ⟨type, _ | ⟨srcName, _ | ⟨destName, rest⟩⟩⟩
  · exact .refuse _ _
  · exact .refuse _ _
  · exact .refuse _ _
  · refine .bind fun _ => .bind fun _ => .bind fun entries => ?_
    refine .bind fun home => ?_
    cases home with
    | none => exact .refuse _ _
    | some destSs =>
        refine .bind fun srcHome => ?_
        cases srcHome with
        | none => exact .refuse _ _
        | some srcSs =>
            refine .waits (.sendAndWait _ _) fun answer answered => ?_
            cases answer with
            | failed status => exact ⟨false, (changeFile_self _ _).symm⟩
            | unparsable => exact ⟨false, (changeFile_self _ _).symm⟩
            | message fields =>
                cases accepted : isOkMessage fields with
                | false =>
                    simp only [accepted]
                    exact ⟨false, (changeFile_self _ _).symm⟩
                | true =>
                    simp only [accepted, ↓reduceIte]
                    exact ⟨true, rfl⟩

/-- Alone, the two steps do to the registry what the command does. -/
theorem SlowCommand.splitsInto (command : SlowCommand) :
    SplitsInto now (command.whole.handler backend now username)
      (command.begin username) := by
  cases command with
  | addAccess msg => exact splitsInto_addAccess msg
  | remAccess msg => exact splitsInto_remAccess msg
  | approveAccess msg => exact splitsInto_approveAccess msg
  | copy msg => exact splitsInto_copy msg

end Together

/-! ## Interleavings -/

/-- The name server, and the commands that wait for storage servers. -/
structure LateState (World : Type) where
  state : NsState World
  waiting : List WaitingCommand

/-- A first step, a second step, or a whole step of another client. -/
inductive LateStep where
  | begin (username : CString) (command : SlowCommand)
  | finish (place : Nat) (now : Int) (succeeded : Bool)
  | other (step : UserStep)

/-- One step of the name server with several clients. -/
def lateStep
    {World : Type}
    (backend : Backend World)
    (current : LateState World) : LateStep → LateState World
  | .begin username command =>
      match command.begin username current.state with
      | .ok (.waits waiting) state =>
          ⟨state, current.waiting ++ [waiting]⟩
      | .ok (.replied _) state => ⟨state, current.waiting⟩
      | .error _ state => ⟨state, current.waiting⟩
  | .finish place now succeeded =>
      match current.waiting[place]? with
      | some waiting =>
          ⟨current.state.onRegistry (lateUpdate now succeeded waiting),
            current.waiting.eraseIdx place⟩
      | none => current
  | .other step => { current with state := userStep backend current.state step }

/--
While commands wait, the step of another client spares their saved positions:
a `DELETE` that is carried out takes out no entry at one of them, unless that
position is past what it leaves, and no `CREATE` or `CREATEFOLDER` that is
carried out appends an entry at one.
-/
def SparesSavedPlaces
    {World : Type}
    (backend : Backend World)
    (current : LateState World) : LateStep → Prop
  | .other (.command now username command) =>
      carriedOut backend now username command current.state = true →
        ∀ waiting ∈ current.waiting,
          sparesPlace command current.state.ns waiting.index = true
  | _ => True

instance
    {World : Type}
    (backend : Backend World)
    (current : LateState World) :
    ∀ step, Decidable (SparesSavedPlaces backend current step)
  | .begin _ _ => isTrue trivial
  | .finish _ _ _ => isTrue trivial
  | .other (.servers _) => isTrue trivial
  | .other (.command now username command) =>
      inferInstanceAs
        (Decidable
          (carriedOut backend now username command current.state = true →
            ∀ waiting ∈ current.waiting,
              sparesPlace command current.state.ns waiting.index = true))

/-! ## Where the late change lands -/

theorem files_lateUpdate
    (now : Int)
    (succeeded : Bool)
    (waiting : WaitingCommand)
    (ns : NameServer) :
    (lateUpdate now succeeded waiting ns).files =
      ns.files.modify waiting.index (waiting.update.onEntry now succeeded) := by
  unfold lateUpdate LateUpdate.onRequests
  split <;> rfl

/-- The position denotes the document, or lies past the end of the table. -/
def Denotes (place document : Nat) (ns : NameServer) : Prop :=
  ∀ file, ns.files[place]? = some file → file.document = document

theorem Denotes.of_keepsPlace
    {place document : Nat}
    {before after : NameServer}
    (denotes : Denotes place document before)
    (keeps : KeepsPlace place before after) :
    Denotes place document after := by
  intro later held
  obtain ⟨file, fileHeld, same⟩ := keeps later held
  exact same.trans (denotes file fileHeld)

section Places

variable
  {World : Type}
  {backend : Backend World}
  {now : Int}
  {username : CString}
  {start : NsState World}

/-- A first step keeps the registry, and looks its position up there. -/
def BeginsAt
    (start : NsState World)
    (program : NsHandler World Begun) : Prop :=
  Triple (Looked start) program
    (fun begun final =>
      (Registry final.ns ∧ ∀ place, KeepsPlace place start.ns final.ns) ∧
        ∀ waiting, begun = .waits waiting →
          start.ns.files[waiting.index]? = some waiting.file)
    (fun final => Registry final.ns ∧ ∀ place, KeepsPlace place start.ns final.ns)

namespace BeginsAt

theorem leaves
    (registry : Registry start.ns)
    (state : NsState World)
    (looked : Looked start state) :
    Registry state.ns ∧ ∀ place, KeepsPlace place start.ns state.ns :=
  ⟨registry.looked looked, fun _ => .of_files looked.files_eq⟩

theorem refuse
    (registry : Registry start.ns)
    (code : Int)
    (text : String) :
    BeginsAt start (nsRefuse code text : NsHandler World Begun) :=
  Triple.throw (leaves registry)

/-- First look, then begin with what has been found. -/
theorem afterLooking
    {α : Type}
    {fact : α → Prop}
    {program : NsHandler World α}
    {next : α → NsHandler World Begun}
    (registry : Registry start.ns)
    (finds : Finds start fact program)
    (acts : ∀ value, fact value → BeginsAt start (next value)) :
    BeginsAt start (program >>= next) :=
  finds.andThen (leaves registry) acts

/-- The registry after a change that keeps which document an entry is. -/
theorem changed
    {looked : NsState World}
    {change : FileMetadata → FileMetadata}
    (registry : Registry start.ns)
    (known : Looked start looked)
    (index : Nat)
    (keeps : KeepsIdentity change) :
    Registry (changeFile index change looked.ns) ∧
      ∀ place,
        KeepsPlace place start.ns (changeFile index change looked.ns) :=
  ⟨(registry.looked known).changeFile keeps.filename index, fun _ =>
    (KeepsPlace.of_files known.files_eq).trans
      (.of_modify rfl keeps.document)⟩

theorem addAccess
    (registry : Registry start.ns)
    (msg : List CString) :
    BeginsAt start (beginAddAccess username msg) := by
  unfold beginAddAccess
  split
  · next type filename targetUser permission rest =>
    refine afterLooking registry Finds.ensure fun _ _ => ?_
    split
    · next grantRead grantWrite parsed =>
      refine afterLooking registry Finds.ensure fun _ _ => ?_
      refine afterLooking registry (Finds.lookup_entry filename)
        fun found isFound => ?_
      split
      · next index file =>
        refine afterLooking registry Finds.ensure fun _ _ => ?_
        split
        · refine Triple.pure fun state looked => ?_
          refine ⟨leaves registry state looked, ?_⟩
          rintro waiting ⟨⟩
        · intro looked known
          have kept :=
            changed registry known index
              (keepsIdentity_fileAddAccess targetUser grantRead grantWrite)
          simp only [bind_apply, changeNs, modify_apply]
          cases room :
              (fileAddAccess file targetUser grantRead grantWrite).1 with
          | false =>
              exact kept
          | true =>
              refine ⟨kept, ?_⟩
              rintro waiting ⟨⟩
              exact (isFound index file rfl).2.1
      · exact refuse registry _ _
    · exact refuse registry _ _
  · exact refuse registry _ _

theorem remAccess
    (registry : Registry start.ns)
    (msg : List CString) :
    BeginsAt start (beginRemAccess username msg) := by
  unfold beginRemAccess
  split
  · next type filename targetUser rest =>
    refine afterLooking registry Finds.ensure fun _ _ => ?_
    refine afterLooking registry Finds.ensure fun _ _ => ?_
    refine afterLooking registry (Finds.lookup_entry filename)
      fun found isFound => ?_
    split
    · next index file =>
      refine afterLooking registry Finds.ensure fun _ _ => ?_
      refine afterLooking registry Finds.ensure fun _ _ => ?_
      intro looked known
      refine ⟨changed registry known index
        (keepsIdentity_fileRemoveAccess targetUser), ?_⟩
      rintro waiting ⟨⟩
      exact (isFound index file rfl).2.1
    · exact refuse registry _ _
  · exact refuse registry _ _

theorem approveAccess
    (registry : Registry start.ns)
    (msg : List CString) :
    BeginsAt start (beginApproveAccess username msg) := by
  unfold beginApproveAccess
  split
  · next type idField rest =>
    refine afterLooking registry
      (Finds.read fun state only => by
        unfold OnlyCacheChanged at only
        rw [only]) fun request isRequest => ?_
    split
    · next position req =>
      refine afterLooking registry Finds.ensure fun _ _ => ?_
      refine afterLooking registry (Finds.lookup_entry req.filename)
        fun found isFound => ?_
      split
      · next index file =>
        intro looked known
        have kept :=
          changed registry known index
            (keepsIdentity_fileAddAccess req.fromUser req.grantRead
              req.grantWrite)
        refine ⟨⟨kept.1.changeRequest position _, kept.2⟩, ?_⟩
        rintro waiting ⟨⟩
        exact (isFound index file rfl).2.1
      · exact refuse registry _ _
    · exact refuse registry _ _
  · exact refuse registry _ _

theorem copy
    (registry : Registry start.ns)
    (msg : List CString) :
    BeginsAt start (beginCopy username msg) := by
  unfold beginCopy
  split
  · next type srcName destName rest =>
    refine afterLooking registry Finds.ensure fun _ _ => ?_
    refine afterLooking registry Finds.ensure fun _ _ => ?_
    refine afterLooking registry (finds_copyEntries srcName destName)
      fun entries areEntries => ?_
    obtain ⟨⟨srcIdx, src⟩, dest⟩ := entries
    obtain ⟨isSource, _⟩ := areEntries
    refine afterLooking registry
      (Finds.read fun state only => homeOf_onlyCacheChanged only dest)
      fun home isHome => ?_
    split
    · refine afterLooking registry
        (Finds.read fun state only => homeOf_onlyCacheChanged only src)
        fun srcHome isSrcHome => ?_
      split
      · intro looked known
        refine ⟨leaves registry looked known, ?_⟩
        rintro waiting ⟨⟩
        exact isSource.held
      · exact refuse registry _ _
    · exact refuse registry _ _
  · exact refuse registry _ _

/-- Every command's first step begins with a position that is right. -/
theorem slowCommand
    (registry : Registry start.ns)
    (command : SlowCommand) :
    BeginsAt start (command.begin username) := by
  cases command with
  | addAccess msg => exact addAccess registry msg
  | remAccess msg => exact remAccess registry msg
  | approveAccess msg => exact approveAccess registry msg
  | copy msg => exact copy registry msg

end BeginsAt

end Places

/-! ## Runs -/

section Runs

variable
  {World : Type}
  {backend : Backend World}

/-- Every saved position denotes the file it was looked up for, or nothing. -/
structure WellPlaced (current : LateState World) : Prop where
  registry : Registry current.state.ns
  placed :
    ∀ waiting ∈ current.waiting,
      Denotes waiting.index waiting.file.document current.state.ns

theorem keepsIdentity_onEntry
    (now : Int)
    (succeeded : Bool)
    (update : LateUpdate) :
    KeepsIdentity (update.onEntry now succeeded) := by
  have same : KeepsIdentity fun file => file :=
    ⟨fun _ => rfl, fun _ => rfl, fun _ => rfl⟩
  cases update with
  | addAccess targetUser =>
      cases succeeded with
      | true => exact same
      | false => exact keepsIdentity_fileRemoveAccess targetUser
  | remAccess targetUser hadRead hadWrite =>
      cases succeeded with
      | true => exact same
      | false => exact keepsIdentity_fileAddAccess targetUser hadRead hadWrite
  | approveAccess position fromUser =>
      cases succeeded with
      | true => exact same
      | false => exact keepsIdentity_fileRemoveAccess fromUser
  | copy username =>
      cases succeeded with
      | true => exact keepsIdentity_accessedMetadata now username
      | false => exact same

theorem WellPlaced.of_keepsPlace
    {current : LateState World}
    (wellPlaced : WellPlaced current)
    {state : NsState World}
    (registry : Registry state.ns)
    {waiting : List WaitingCommand}
    (subset : ∀ command ∈ waiting, command ∈ current.waiting)
    (keeps :
      ∀ command ∈ waiting,
        KeepsPlace command.index current.state.ns state.ns) :
    WellPlaced ⟨state, waiting⟩ where
  registry := registry
  placed command member :=
    (wellPlaced.placed command (subset command member)).of_keepsPlace
      (keeps command member)

theorem WellPlaced.begin
    {current : LateState World}
    (wellPlaced : WellPlaced current)
    (username : CString)
    (command : SlowCommand) :
    WellPlaced (lateStep backend current (.begin username command)) := by
  have beginsAt : BeginsAt current.state (command.begin username) :=
    BeginsAt.slowCommand wellPlaced.registry command
  have begins :=
    beginsAt current.state (Looked.refl wellPlaced.registry.coherent)
  unfold lateStep
  simp only
  cases outcome : command.begin username current.state with
  | error refusal state =>
      rw [outcome] at begins
      exact wellPlaced.of_keepsPlace begins.1 (fun _ => id)
        fun _ _ => begins.2 _
  | ok begun state =>
      rw [outcome] at begins
      obtain ⟨⟨registry, keeps⟩, position⟩ := begins
      have older : WellPlaced ⟨state, current.waiting⟩ :=
        wellPlaced.of_keepsPlace registry (fun _ => id) fun _ _ => keeps _
      cases begun with
      | replied reply =>
          exact older
      | waits waiting =>
          refine ⟨registry, fun command member => ?_⟩
          rcases List.mem_append.mp member with old | new
          · exact older.placed command old
          · obtain rfl := List.mem_singleton.mp new
            have found : Denotes command.index command.file.document
                current.state.ns := by
              intro file held
              rw [position command rfl] at held
              cases held
              rfl
            exact found.of_keepsPlace (keeps command.index)

theorem WellPlaced.finish
    {current : LateState World}
    (wellPlaced : WellPlaced current)
    (place : Nat)
    (now : Int)
    (succeeded : Bool) :
    WellPlaced (lateStep backend current (.finish place now succeeded)) := by
  unfold lateStep
  simp only
  split
  · next waiting held =>
    have identity := keepsIdentity_onEntry now succeeded waiting.update
    refine wellPlaced.of_keepsPlace ?_ (fun _ => List.mem_of_mem_eraseIdx)
      fun _ _ =>
        .of_modify (files_lateUpdate now succeeded waiting _)
          identity.document
    have changed :=
      wellPlaced.registry.changeFile identity.filename waiting.index
    unfold NsState.onRegistry lateUpdate LateUpdate.onRequests
    simp only
    split
    · exact changed.changeRequest _ _
    · exact changed
  · exact wellPlaced

/-- What a sparing step of any client preserves. -/
theorem WellPlaced.step
    {current : LateState World}
    (wellPlaced : WellPlaced current)
    (step : LateStep)
    (spares : SparesSavedPlaces backend current step) :
    WellPlaced (lateStep backend current step) := by
  cases step with
  | begin username command =>
      exact wellPlaced.begin username command
  | finish place now succeeded =>
      exact wellPlaced.finish place now succeeded
  | other step =>
      have registry := wellPlaced.registry
      cases step with
      | command now username command =>
          refine wellPlaced.of_keepsPlace ?_ (fun _ => id)
            fun waiting member => ?_
          · exact @Registry.nsStep _ backend _ registry
              (.command now username command)
          · exact keepsPlace_of_command registry command fun carriedOut =>
              spares carriedOut waiting member
      | servers storageServers =>
          refine wellPlaced.of_keepsPlace ?_ (fun _ => id) fun _ _ => ?_
          · exact registry.of_same rfl rfl rfl
          · exact .of_files rfl

end Runs

/-! ## Two runs with a deletion in between -/

end DistributedDocs
