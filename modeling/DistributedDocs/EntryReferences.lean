import DistributedDocs.LateUpdates
import DistributedDocs.ReferenceCounts

namespace DistributedDocs

/-!
# References to storage-server entries

A command finds the entries of its storage servers under `state_lock`, acquires
references to them, and goes on with them.  `refcount` keeps the thread that
serves a storage server's connection from freeing the entry.  Each handler is
given here by what it does with these entries and with `state_lock`; what it
decides about them under the lock is what the handlers decide.
-/

open References (Program)

/-- What a handler still does; an entry is known by its address. -/
abbrev EntryProgram :=
  Program Nat SsAnswer

namespace EntryProgram

/-- The handler gives `state_lock` up and has no references. -/
def refused : EntryProgram :=
  .unlock .done

/-- A section under `state_lock` that does not concern the entries. -/
def relocked (rest : EntryProgram) : EntryProgram :=
  .lock (.unlock rest)

end EntryProgram

open EntryProgram (refused relocked)

/-- Look at the registry without an effect. -/
def decided
    {α : Type}
    (program : NsHandler Unit α)
    (ns : NameServer) : EStateM.Result Refusal (NsState Unit) α :=
  program ⟨ns, ()⟩

/-! ## One storage server -/

/-- `EXEC`: the reference is released before the answer is looked at. -/
def execReferences
    (now : Int)
    (username : CString)
    (msg : List CString)
    (ns : NameServer) : EntryProgram :=
  match msg with
  | _ :: filename :: _ =>
      match decided (execStart now username filename) ns with
      | .error _ _ => refused
      | .ok file after =>
          match homeOf file after.ns with
          | none => refused
          | some target =>
              .acquire target.address
                (.unlock
                  (.ask target.address fun _ =>
                    .release target.address .done))
  | _ => refused

/-- Whether `APPROVEACCESS` takes an answer for a failure. -/
def approveFails : SsAnswer → Bool
  | .failed _ | .unparsable => true
  | .message (type :: _) => type = str "ERR"
  | .message [] => false

/-- `APPROVEACCESS`: the reference is released after the rollback. -/
def approveAccessReferences
    (username : CString)
    (msg : List CString)
    (ns : NameServer) : EntryProgram :=
  match decided (beginApproveAccess username msg) ns with
  | .ok (.waits waiting) after =>
      match homeOf waiting.file after.ns with
      | none => .unlock (relocked .done)
      | some target =>
          .acquire target.address
            (.unlock
              (.ask target.address fun answer =>
                if approveFails answer then
                  relocked (.release target.address .done)
                else
                  .release target.address .done))
  | _ => refused

/-- Whether `ADDACCESS` and `REMACCESS` take an answer for a failure. -/
def accessFails (answer : SsAnswer) : Bool :=
  (answerFailure "OK_ACCESS_CHANGED" "Failed to parse SS response."
    "Unexpected SS response." answer).isSome

/-- The reference is released before the rollback. -/
def accessReferences
    (begins : NsHandler Unit Begun)
    (ns : NameServer) : EntryProgram :=
  match decided begins ns with
  | .ok (.waits waiting) after =>
      match homeOf waiting.file after.ns with
      | none => .unlock (relocked .done)
      | some target =>
          .acquire target.address
            (.unlock
              (.ask target.address fun answer =>
                .release target.address
                  (if accessFails answer then relocked .done else .done)))
  | _ => refused

/-- `ADDACCESS` -/
def addAccessReferences (username : CString) (msg : List CString) :
    NameServer → EntryProgram :=
  accessReferences (beginAddAccess username msg)

/-- `REMACCESS` -/
def remAccessReferences (username : CString) (msg : List CString) :
    NameServer → EntryProgram :=
  accessReferences (beginRemAccess username msg)

/-- Whether `CREATE` takes an answer for a failure. -/
def createFails (answer : SsAnswer) : Bool :=
  (answerFailure "OK_CREATE" "Failed to parse SS response."
    "Unexpected SS response." answer).isSome

/--
`CREATE`; it looks at `sockfd` first, and if the file is made it logs the
address of the server and counts the file under the lock.
-/
def createReferences
    (username : CString)
    (msg : List CString)
    (ns : NameServer) : EntryProgram :=
  match msg with
  | _ :: filename :: _ =>
      if validateFilename filename && username ≠ [] then
        match decided (createTarget filename) ns with
        | .error _ _ => refused
        | .ok target _ =>
            let failed := relocked (.release target.address .done)
            .acquire target.address
              (.unlock
                (.use target.address
                  (.choose fun isOpen =>
                    if isOpen then
                      .ask target.address fun answer =>
                        if createFails answer then failed
                        else
                          .use target.address
                            (.lock
                              (.use target.address
                                (.unlock (.release target.address .done))))
                    else
                      failed)))
      else
        refused
  | _ => refused

/-- The entries of the source and of the destination of a `COPY`. -/
def copyHomes (username : CString) (msg : List CString) :
    NsHandler Unit (StorageServerInfo × StorageServerInfo) := do
  match msg with
  | _ :: srcName :: destName :: _ =>
      nsEnsure (validateFilename srcName && validateFilename destName)
        errInvalidRequest "Invalid filename(s) for COPY."
      nsEnsure (username ≠ []) errInternalError "Client identity unknown."
      let ((_, src), dest) ← copyEntries username srcName destName
      let some destSs ← readNs (homeOf dest)
        | nsRefuse errInternalError "Destination storage server offline"
      let some srcSs ← readNs (homeOf src)
        | nsRefuse errInternalError "Source storage server offline"
      return (srcSs, destSs)
  | _ =>
      nsRefuse errInvalidRequest "Usage: COPY <source> <dest>"

/--
`COPY` acquires a reference to the destination's entry only.  The port of
another source is printed without the lock, and its address is read when the
request is built.
-/
def copyReferences
    (username : CString)
    (msg : List CString)
    (ns : NameServer) : EntryProgram :=
  match decided (copyHomes username msg) ns with
  | .error _ _ => refused
  | .ok (srcSs, destSs) _ =>
      let asks : EntryProgram :=
        .ask destSs.address fun answer =>
          .release destSs.address
            (match answer with
              | .message fields =>
                  if isOkMessage fields then relocked .done else .done
              | _ => .done)
      .acquire destSs.address
        (.unlock
          (if srcSs.address = destSs.address then asks
          else .use srcSs.address (.use srcSs.address asks)))

/-! ## One reference for each file that is taken along -/

/-- The references acquired by a planning loop, up to the entry it refuses. -/
def acquiredByPlanning
    {Entry : Type}
    (planEntry : FileMetadata → NsHandler Unit Entry)
    (ssOf : Entry → Option Nat) :
    List FileMetadata → NsState Unit → List Nat
  | [], _ => []
  | file :: rest, state =>
      match planEntry file state with
      | .error _ _ => []
      | .ok entry after =>
          (ssOf entry).toList ++ acquiredByPlanning planEntry ssOf rest after

/-- The checks of `MOVE` before the loop, and what the loop goes over. -/
def moveTaken (username srcPath destination : CString) :
    NsHandler Unit (CString × List FileMetadata) := do
  let some (_, srcMeta) ← lookupMetadata srcPath
    | nsRefuse errFileNotFound "Source path not found."
  nsEnsure (strncmpEq srcMeta.owner username maxUsernameLength)
    errPermissionDenied "Only the owner may move this entry."
  if destination ≠ [] then
    ensureFolder destination "Destination folder not found."
      "Destination is not a folder."
  let some (_, baseName) := nsSplitParentChild srcPath
    | nsRefuse errInvalidRequest "Unable to resolve source path."
  let some finalRoot := finalRootPath destination baseName
    | nsRefuse errInvalidRequest "Destination path too long."
  nsEnsure (finalRoot ≠ srcPath)
    errInvalidRequest "Source and destination are identical."
  nsEnsure (!((srcMeta.isDirectory && destination ≠ []) &&
      nsIsDescendantPath destination srcPath))
    errInvalidRequest "Cannot move a folder into its descendant."
  let taken ← readNs fun ns =>
    ns.files.filter fun file =>
      takenAlong srcPath srcMeta.isDirectory file.filename
  return (finalRoot, taken)

/-- The rollback of `MOVE`; every answer is ignored. -/
def rollbackReferences (rest : EntryProgram) :
    List MovePlanEntry → EntryProgram
  | [] => rest
  | entry :: earlier =>
      match entry.ss with
      | none => rollbackReferences rest earlier
      | some address =>
          .ask address fun _ => rollbackReferences rest earlier

/--
The renames of `MOVE`, under the lock.  A failure releases the references
before the lock, success after it.
-/
def moveReferencesFrom (acquired : List Nat) (done : List MovePlanEntry) :
    List MovePlanEntry → EntryProgram
  | [] =>
      .unlock (.releaseAll acquired .done)
  | entry :: rest =>
      match entry.ss with
      | none => moveReferencesFrom acquired done rest
      | some address =>
          .ask address fun answer =>
            match renameFailure answer with
            | some _ =>
                rollbackReferences (.releaseAll acquired refused) done
            | none => moveReferencesFrom acquired (entry :: done) rest

/-- `MOVE` -/
def moveReferences
    (username : CString)
    (msg : List CString)
    (ns : NameServer) : EntryProgram :=
  match msg with
  | _ :: srcPath :: destFolder :: _ =>
      match nsNormalizeDestination destFolder with
      | none => refused
      | some destination =>
          if nsValidateLogicalPath srcPath && username ≠ [] then
            match decided (moveTaken username srcPath destination) ns with
            | .error _ _ => refused
            | .ok (finalRoot, taken) looked =>
                let acquired :=
                  acquiredByPlanning (planMoveEntry username srcPath finalRoot)
                    MovePlanEntry.ss taken looked
                match decided (planMove username srcPath destination) ns with
                | .error _ _ =>
                    .acquireAll acquired (.releaseAll acquired refused)
                | .ok plan _ =>
                    .acquireAll acquired (moveReferencesFrom acquired [] plan)
          else
            refused
  | _ => refused

/-- The checks of `DELETE` before the loop, and what the loop goes over. -/
def deleteTaken (username targetPath : CString) :
    NsHandler Unit (List FileMetadata) := do
  let some (_, targetMeta) ← lookupMetadata targetPath
    | nsRefuse errFileNotFound "Target path not found."
  nsEnsure (strncmpEq targetMeta.owner username maxUsernameLength)
    errPermissionDenied "Only the owner may delete this entry."
  readNs fun ns =>
    ns.files.filter fun file =>
      takenAlong targetPath targetMeta.isDirectory file.filename

/-- The removed entries reduce the loads of their servers. -/
def unloadReferences (rest : EntryProgram) :
    List DeletePlanEntry → EntryProgram
  | [] => rest
  | entry :: later =>
      match entry.ss with
      | none => unloadReferences rest later
      | some address => .use address (unloadReferences rest later)

/-- The deletions of `DELETE`, under the lock. -/
def deleteReferencesFrom (acquired : List Nat) (plan : List DeletePlanEntry) :
    List DeletePlanEntry → EntryProgram
  | [] =>
      unloadReferences (.unlock (.releaseAll acquired .done))
        (removalOrder plan)
  | entry :: rest =>
      match entry.ss with
      | none => deleteReferencesFrom acquired plan rest
      | some address =>
          .ask address fun answer =>
            match deleteFailure answer with
            | some _ => .releaseAll acquired refused
            | none => deleteReferencesFrom acquired plan rest

/-- `DELETE` -/
def deleteReferences
    (username : CString)
    (msg : List CString)
    (ns : NameServer) : EntryProgram :=
  match msg with
  | _ :: targetPath :: _ =>
      if nsValidateLogicalPath targetPath && username ≠ [] then
        match decided (deleteTaken username targetPath) ns with
        | .error _ _ => refused
        | .ok taken looked =>
            let acquired :=
              acquiredByPlanning (planDeleteEntry username) DeletePlanEntry.ss
                taken looked
            match decided (planDelete username targetPath) ns with
            | .error _ _ =>
                .acquireAll acquired (.releaseAll acquired refused)
            | .ok plan _ =>
                .acquireAll acquired (deleteReferencesFrom acquired plan plan)
      else
        refused
  | _ => refused

/-! ## Any interleaving -/

/-- The commands that go on with an entry after they have released the lock. -/
inductive ReferencingCommand where
  | exec (now : Int) (msg : List CString)
  | approveAccess (msg : List CString)
  | copy (msg : List CString)
  | create (msg : List CString)
  | move (msg : List CString)
  | delete (msg : List CString)
  | addAccess (msg : List CString)
  | remAccess (msg : List CString)
  deriving DecidableEq

/-- What a command does with the entries, once it has `state_lock`. -/
def ReferencingCommand.program
    (username : CString)
    (ns : NameServer) : ReferencingCommand → EntryProgram
  | .exec now msg => execReferences now username msg ns
  | .approveAccess msg => approveAccessReferences username msg ns
  | .copy msg => copyReferences username msg ns
  | .create msg => createReferences username msg ns
  | .move msg => moveReferences username msg ns
  | .delete msg => deleteReferences username msg ns
  | .addAccess msg => addAccessReferences username msg ns
  | .remAccess msg => remAccessReferences username msg ns

/-- The addresses of the entries in `storage_servers`. -/
def entryAddresses (ns : NameServer) : List Nat :=
  ns.storageServers.map StorageServerInfo.address

/-- The registry, and the references to its storage servers. -/
structure ReferenceState where
  ns : NameServer
  refs : References.State Nat SsAnswer

/--
What a client's thread or a storage server's thread does next.  `registry` is
any change of the name server that registers no storage server, and `teardown`
and `free` are the two parts of the end of `connection_thread`.
-/
inductive ReferenceEvent where
  | command (username : CString) (command : ReferencingCommand)
  | advance (thread : Nat) (answer : SsAnswer) (choice : Bool)
  | registry (ns : NameServer)
  | connect (ss : StorageServerInfo)
  | teardown (address : Nat)
  | free (address : Nat)

/-- One step. -/
def referenceStep (state : ReferenceState) :
    ReferenceEvent → ReferenceState
  | .command username command =>
      { state with
        refs :=
          References.step state.refs
            (.begin (command.program username state.ns)) }
  | .advance thread answer choice =>
      { state with
        refs := References.step state.refs (.advance thread answer choice) }
  | .registry ns =>
      if entryAddresses ns ⊆ entryAddresses state.ns then
        { state with ns := ns }
      else
        state
  | .connect ss =>
      let refs := References.step state.refs (.join ss.address)
      if ss.address ∈ refs.table then
        { ns :=
            { state.ns with
              storageServers := state.ns.storageServers ++ [ss] }
          refs := refs }
      else
        state
  | .teardown address =>
      if state.refs.holder = none then
        { ns :=
            { state.ns with
              storageServers :=
                state.ns.storageServers.filter fun ss =>
                  ss.address ≠ address }
          refs := References.step state.refs (.leave address) }
      else
        state
  | .free address =>
      { state with refs := References.step state.refs (.free address) }

/-- A `COPY` that passes its checks is from and to one storage server. -/
def copyIsLocal (username : CString) (msg : List CString) (ns : NameServer) :
    Bool :=
  match decided (copyHomes username msg) ns with
  | .ok (srcSs, destSs) _ => srcSs.address = destSs.address
  | .error _ _ => true

/-- No `COPY` from one storage server to another begins. -/
def CopiesLocally (state : ReferenceState) : ReferenceEvent → Prop
  | .command username (.copy msg) =>
      state.refs.holder = none → copyIsLocal username msg state.ns = true
  | _ => True

instance (state : ReferenceState) :
    ∀ event, Decidable (CopiesLocally state event)
  | .command username (.copy msg) =>
      inferInstanceAs
        (Decidable
          (state.refs.holder = none →
            copyIsLocal username msg state.ns = true))
  | .command _ (.exec _ _) | .command _ (.approveAccess _)
  | .command _ (.create _) | .command _ (.move _) | .command _ (.delete _)
  | .command _ (.addAccess _) | .command _ (.remAccess _)
  | .advance _ _ _ | .registry _ | .connect _ | .teardown _ | .free _ =>
      inferInstanceAs (Decidable True)

/-! ## What is acquired is in the table -/

section Acquiring

variable {username : CString}

/-- The registry has these storage servers. -/
def HasServers (addresses : List Nat) (state : NsState Unit) : Prop :=
  entryAddresses state.ns = addresses

/-- The program leaves the storage servers, and returns what it should. -/
def KeepsServers
    {α : Type}
    (addresses : List Nat)
    (fact : α → Prop)
    (program : NsHandler Unit α) : Prop :=
  Triple (HasServers addresses) program
    (fun value state => fact value ∧ HasServers addresses state)
    (HasServers addresses)

namespace KeepsServers

variable
  {α β : Type}
  {addresses : List Nat}
  {fact : α → Prop}

theorem pure
    {value : α}
    (holds : fact value) :
    KeepsServers addresses fact (Pure.pure value) :=
  Triple.pure fun _ has => ⟨holds, has⟩

theorem refuse
    (code : Int)
    (text : String) :
    KeepsServers addresses fact (nsRefuse code text) :=
  Triple.throw fun _ has => has

theorem ensure
    {condition : Bool}
    {code : Int}
    {text : String} :
    KeepsServers addresses (fun _ => True) (nsEnsure condition code text) := by
  unfold nsEnsure
  split
  · exact pure trivial
  · exact refuse code text

theorem bind
    {program : NsHandler Unit α}
    {next : α → NsHandler Unit β}
    {later : β → Prop}
    (first : KeepsServers addresses fact program)
    (second : ∀ value, fact value → KeepsServers addresses later (next value)) :
    KeepsServers addresses later (program >>= next) :=
  Triple.bind first fun value state holds => second value holds.1 state holds.2

theorem read
    {look : NameServer → α}
    (holds : ∀ ns, entryAddresses ns = addresses → fact (look ns)) :
    KeepsServers addresses fact (readNs look) :=
  fun state has => ⟨holds state.ns has, has⟩

theorem looks (look : NameServer → α) :
    KeepsServers addresses (fun _ => True) (readNs look) :=
  read fun _ _ => trivial

theorem changesFile
    (index : Nat)
    (change : FileMetadata → FileMetadata) :
    KeepsServers addresses (fun _ => True)
      (changeNs (changeFile index change)) :=
  fun _ has => ⟨trivial, has⟩

theorem changesRequest
    (position : Nat)
    (change : AccessRequest → AccessRequest) :
    KeepsServers addresses (fun _ => True)
      (changeNs (changeRequest position change)) :=
  fun _ has => ⟨trivial, has⟩

theorem lookup (filename : CString) :
    KeepsServers addresses (fun _ => True) (lookupMetadata filename) := by
  have looked :
      KeepsServers addresses (fun _ => True)
        (onNs (fileLookupLocked filename)) := by
    intro state has
    refine ⟨trivial, ?_⟩
    have only := onlyCacheChanged_fileLookupLocked filename state.ns
    exact (congrArg (List.map _) only.storageServers).trans has
  refine looked.bind fun found _ => ?_
  cases found with
  | none => exact pure trivial
  | some index => exact read fun _ _ => trivial

/-- The storage server of an entry is in the table. -/
theorem home (file : FileMetadata) :
    KeepsServers addresses (fun ss => ∀ info ∈ ss, info.address ∈ addresses)
      (readNs (homeOf file)) := by
  refine read fun ns same info isHome => ?_
  rw [← same]
  exact List.mem_map_of_mem (homeOf_some isHome).1

/-- What a program that has returned says about the table it began with. -/
theorem of_ok
    {program : NsHandler Unit α}
    {ns : NameServer}
    (keeps : KeepsServers (entryAddresses ns) fact program)
    {value : α}
    {after : NsState Unit}
    (returned : decided program ns = .ok value after) :
    fact value ∧ entryAddresses after.ns = entryAddresses ns := by
  have reached := keeps ⟨ns, ()⟩ rfl
  rw [decided] at returned
  rw [returned] at reached
  exact reached

theorem execStart (now : Int) (filename : CString) :
    KeepsServers addresses (fun _ => True)
      (execStart now username filename) := by
  unfold DistributedDocs.execStart
  refine ensure.bind fun _ _ => ensure.bind fun _ _ => ?_
  refine (lookup filename).bind fun found _ => ?_
  split
  · refine ensure.bind fun _ _ => ?_
    refine (changesFile _ _).bind fun _ _ => ?_
    exact pure trivial
  · exact refuse _ _

theorem beginAddAccess (msg : List CString) :
    KeepsServers addresses (fun _ => True) (beginAddAccess username msg) := by
  unfold DistributedDocs.beginAddAccess
  split
  · refine ensure.bind fun _ _ => ?_
    split
    · refine ensure.bind fun _ _ => (lookup _).bind fun found _ => ?_
      split
      · refine ensure.bind fun _ _ => ?_
        split
        · exact pure trivial
        · simp only
          refine (changesFile _ _).bind fun _ _ => ?_
          refine ensure.bind fun _ _ => ?_
          exact pure trivial
      · exact refuse _ _
    · exact refuse _ _
  · exact refuse _ _

theorem beginRemAccess (msg : List CString) :
    KeepsServers addresses (fun _ => True) (beginRemAccess username msg) := by
  unfold DistributedDocs.beginRemAccess
  split
  · refine ensure.bind fun _ _ => ensure.bind fun _ _ => ?_
    refine (lookup _).bind fun found _ => ?_
    split
    · refine ensure.bind fun _ _ => ensure.bind fun _ _ => ?_
      refine (changesFile _ _).bind fun _ _ => ?_
      exact pure trivial
    · exact refuse _ _
  · exact refuse _ _

theorem beginApproveAccess (msg : List CString) :
    KeepsServers addresses (fun _ => True)
      (beginApproveAccess username msg) := by
  unfold DistributedDocs.beginApproveAccess
  split
  · refine (looks _).bind fun request _ => ?_
    split
    · refine ensure.bind fun _ _ => (lookup _).bind fun found _ => ?_
      split
      · refine (changesFile _ _).bind fun _ _ => ?_
        refine (changesRequest _ _).bind fun _ _ => ?_
        exact pure trivial
      · exact refuse _ _
    · exact refuse _ _
  · exact refuse _ _

theorem select :
    KeepsServers addresses
      (fun chosen => ∀ target ∈ chosen, target.address ∈ addresses)
      (onNs nsSelectStorageServerBalanced) := by
  intro state has
  have same :
      entryAddresses (nsSelectStorageServerBalanced state.ns).2 = addresses := by
    rw [← has, entryAddresses, storageServers_select, List.map_map]
    refine List.map_congr_left fun ss _ => ?_
    rw [Function.comp_apply, clampLoads]
    split <;> rfl
  refine ⟨fun target selected => ?_, same⟩
  rw [← same]
  exact List.mem_map_of_mem (mem_of_selected selected).1

/-- `CREATE` chooses an entry of the table. -/
theorem createTarget (filename : CString) :
    KeepsServers addresses (fun target => target.address ∈ addresses)
      (createTarget filename) := by
  unfold DistributedDocs.createTarget
  refine (looks _).bind fun _ _ => ensure.bind fun _ _ => ?_
  refine (lookup _).bind fun _ _ => ensure.bind fun _ _ => ?_
  refine (looks _).bind fun _ _ => ensure.bind fun _ _ => ?_
  refine select.bind fun chosen isChosen => ?_
  cases chosen with
  | none => exact refuse _ _
  | some target => exact pure (isChosen target rfl)

theorem copyEntries (username srcName destName : CString) :
    KeepsServers addresses (fun _ => True)
      (copyEntries username srcName destName) := by
  unfold DistributedDocs.copyEntries
  refine (lookup _).bind fun source _ => (lookup _).bind fun dest _ => ?_
  split
  · split
    · refine ensure.bind fun _ _ => ensure.bind fun _ _ => ?_
      exact pure trivial
    · exact refuse _ _
  · exact refuse _ _

/-- `COPY` finds both entries in the table. -/
theorem copyHomes (msg : List CString) :
    KeepsServers addresses
      (fun homes =>
        homes.1.address ∈ addresses ∧ homes.2.address ∈ addresses)
      (copyHomes username msg) := by
  unfold DistributedDocs.copyHomes
  split
  · refine ensure.bind fun _ _ => ensure.bind fun _ _ => ?_
    refine (copyEntries _ _ _).bind fun entries _ => ?_
    obtain ⟨⟨srcIdx, src⟩, dest⟩ := entries
    refine (home dest).bind fun destHome inTable => ?_
    cases destHome with
    | none => exact refuse _ _
    | some destSs =>
        refine (home src).bind fun srcHome alsoInTable => ?_
        cases srcHome with
        | none => exact refuse _ _
        | some srcSs =>
            exact pure ⟨alsoInTable srcSs rfl, inTable destSs rfl⟩
  · exact refuse _ _

end KeepsServers

theorem address_mem_of_homeOf
    {ns : NameServer}
    {file : FileMetadata}
    {target : StorageServerInfo}
    (isHome : homeOf file ns = some target) :
    target.address ∈ entryAddresses ns :=
  List.mem_map_of_mem (homeOf_some isHome).1

/-! ## Every handler but `COPY` is disciplined -/

variable
  {ns : NameServer}
  {addresses held : List Nat}

theorem disciplined_refused :
    refused.Disciplined addresses [] true :=
  ⟨rfl, rfl, rfl⟩

theorem disciplined_relocked
    {rest : EntryProgram}
    (disciplined : rest.Disciplined [] held false) :
    (relocked rest).Disciplined addresses held false :=
  ⟨rfl, rfl, disciplined⟩

theorem disciplined_execReferences (now : Int) (msg : List CString) :
    (execReferences now username msg ns).Disciplined (entryAddresses ns) []
      true := by
  unfold execReferences
  split
  · split
    · exact disciplined_refused
    · next file after returned =>
      have kept := ((KeepsServers.execStart now _).of_ok returned).2
      split
      · exact disciplined_refused
      · next target isHome =>
        have inTable := kept ▸ address_mem_of_homeOf isHome
        exact ⟨inTable, rfl, by simp, fun _ => ⟨by simp, by simp, rfl⟩⟩
  · exact disciplined_refused

/-- A reference that is acquired before the lock is released. -/
theorem disciplined_acquire
    {target : Nat}
    {rest : EntryProgram}
    (inTable : target ∈ addresses)
    (disciplined : rest.Disciplined [] [target] false) :
    (References.Program.acquire target (.unlock rest)).Disciplined addresses []
      true :=
  ⟨inTable, rfl, disciplined⟩

/-- The last reference is released. -/
theorem disciplined_release
    {target : Nat}
    {rest : EntryProgram}
    (disciplined : rest.Disciplined [] [] false) :
    (References.Program.release target rest).Disciplined [] [target] false :=
  ⟨by simp, by simpa using disciplined⟩

theorem disciplined_done :
    (References.Program.done : EntryProgram).Disciplined [] [] false :=
  ⟨rfl, rfl⟩

theorem disciplined_offline :
    (References.Program.unlock (relocked .done)).Disciplined addresses []
      true :=
  ⟨rfl, disciplined_relocked disciplined_done⟩

theorem disciplined_approveAccessReferences (msg : List CString) :
    (approveAccessReferences username msg ns).Disciplined (entryAddresses ns)
      [] true := by
  unfold approveAccessReferences
  split
  · next waiting after returned =>
    have kept := ((KeepsServers.beginApproveAccess msg).of_ok returned).2
    split
    · exact disciplined_offline
    · next target isHome =>
      refine disciplined_acquire (kept ▸ address_mem_of_homeOf isHome)
        ⟨by simp, fun answer => ?_⟩
      simp only
      split
      · exact disciplined_relocked (disciplined_release disciplined_done)
      · exact disciplined_release disciplined_done
  · exact disciplined_refused

theorem disciplined_accessReferences
    {begins : NsHandler Unit Begun}
    (keeps : KeepsServers (entryAddresses ns) (fun _ => True) begins) :
    (accessReferences begins ns).Disciplined (entryAddresses ns) [] true := by
  unfold accessReferences
  split
  · next waiting after returned =>
    have kept := (keeps.of_ok returned).2
    split
    · exact disciplined_offline
    · next target isHome =>
      refine disciplined_acquire (kept ▸ address_mem_of_homeOf isHome)
        ⟨by simp, fun answer => disciplined_release ?_⟩
      split
      · exact disciplined_relocked disciplined_done
      · exact disciplined_done
  · exact disciplined_refused

theorem disciplined_createReferences (msg : List CString) :
    (createReferences username msg ns).Disciplined (entryAddresses ns) []
      true := by
  unfold createReferences
  split
  · next type filename rest =>
    split
    · split
      · exact disciplined_refused
      · next target after returned =>
        have inTable := ((KeepsServers.createTarget filename).of_ok returned).1
        have failed :
            (relocked (.release target.address .done)).Disciplined []
              [target.address] false :=
          disciplined_relocked (disciplined_release disciplined_done)
        refine disciplined_acquire inTable ⟨by simp, fun isOpen => ?_⟩
        simp only
        split
        · refine ⟨by simp, fun answer => ?_⟩
          simp only
          split
          · exact failed
          · exact ⟨by simp, rfl, by simp, rfl,
              disciplined_release disciplined_done⟩
        · exact failed
    · exact disciplined_refused
  · exact disciplined_refused

/-- `COPY` is disciplined as long as it need not read the source's entry. -/
theorem disciplined_copyReferences
    {msg : List CString}
    (isLocal : copyIsLocal username msg ns = true) :
    (copyReferences username msg ns).Disciplined (entryAddresses ns) []
      true := by
  unfold copyIsLocal at isLocal
  unfold copyReferences
  split
  · exact disciplined_refused
  · next srcSs destSs after returned =>
    have inTable := ((KeepsServers.copyHomes msg).of_ok returned).1.2
    rw [returned] at isLocal
    simp only [if_pos (of_decide_eq_true isLocal)]
    refine disciplined_acquire inTable
      ⟨by simp, fun answer => disciplined_release ?_⟩
    split
    · split
      · exact disciplined_relocked disciplined_done
      · exact disciplined_done
    · exact disciplined_done

/-! ### `MOVE` and `DELETE` -/

/-- A planning loop acquires what its plan names. -/
theorem acquiredByPlanning_eq
    {Entry : Type}
    {planEntry : FileMetadata → NsHandler Unit Entry}
    (ssOf : Entry → Option Nat)
    {planEntries : List FileMetadata → NsHandler Unit (List Entry)}
    (planNil : planEntries [] = Pure.pure [])
    (planCons :
      ∀ file rest,
        planEntries (file :: rest) = do
          let entry ← planEntry file
          return entry :: (← planEntries rest))
    {files : List FileMetadata}
    {state after : NsState Unit}
    {plan : List Entry}
    (planned : planEntries files state = .ok plan after) :
    acquiredByPlanning planEntry ssOf files state = plan.filterMap ssOf := by
  induction files generalizing state plan with
  | nil =>
      rw [planNil] at planned
      obtain ⟨rfl, _⟩ := EStateM.Result.ok.inj planned
      rfl
  | cons file rest inductionHypothesis =>
      rw [planCons, bind_apply] at planned
      unfold acquiredByPlanning
      cases first : planEntry file state with
      | error refusal middle =>
          rw [first] at planned
          cases planned
      | ok entry middle =>
          rw [first] at planned
          simp only [bind_apply] at planned
          cases others : planEntries rest middle with
          | error refusal final =>
              rw [others] at planned
              cases planned
          | ok entries final =>
              rw [others] at planned
              obtain ⟨rfl, rfl⟩ := EStateM.Result.ok.inj planned
              simp only [List.filterMap_cons, inductionHypothesis others]
              cases ssOf entry with
              | none => rfl
              | some address => rfl

/-- A planning loop acquires entries of the table. -/
theorem mem_of_acquiredByPlanning
    {Entry : Type}
    {planEntry : FileMetadata → NsHandler Unit Entry}
    (ssOf : Entry → Option Nat)
    (keeps :
      ∀ file,
        KeepsServers addresses
          (fun entry => ∀ address ∈ ssOf entry, address ∈ addresses)
          (planEntry file))
    (files : List FileMetadata)
    {state : NsState Unit}
    (has : HasServers addresses state) :
    ∀ address ∈ acquiredByPlanning planEntry ssOf files state,
      address ∈ addresses := by
  induction files generalizing state with
  | nil =>
      exact fun _ member => List.not_mem_nil.elim member
  | cons file rest inductionHypothesis =>
      intro address member
      have kept := keeps file state has
      unfold acquiredByPlanning at member
      cases first : planEntry file state with
      | error refusal middle =>
          rw [first] at member
          exact List.not_mem_nil.elim member
      | ok entry middle =>
          rw [first] at member kept
          rcases List.mem_append.mp member with here | later
          · exact kept.1 address (Option.mem_toList.mp here)
          · exact inductionHypothesis kept.2 address later

theorem disciplined_rollbackReferences
    {rest : EntryProgram}
    (disciplined : rest.Disciplined addresses held true)
    {entries : List MovePlanEntry}
    (isHeld : ∀ entry ∈ entries, ∀ address ∈ entry.ss, address ∈ held) :
    (rollbackReferences rest entries).Disciplined addresses held true := by
  induction entries with
  | nil => exact disciplined
  | cons entry earlier inductionHypothesis =>
      have later := inductionHypothesis fun other member =>
        isHeld other (List.mem_cons_of_mem entry member)
      unfold rollbackReferences
      split
      · exact later
      · next address isSs =>
        exact ⟨isHeld entry (by simp) address isSs, fun _ => later⟩

theorem disciplined_releaseAll_refused (acquired : List Nat) :
    (References.Program.releaseAll acquired refused).Disciplined addresses
      acquired true := by
  have released :
      (References.Program.releaseAll acquired refused).Disciplined addresses
        (acquired ++ []) true :=
    .releaseAll disciplined_refused
  rwa [List.append_nil] at released

theorem disciplined_releaseAll_done (acquired : List Nat) :
    (References.Program.releaseAll acquired .done :
      EntryProgram).Disciplined [] acquired false := by
  have released :
      (References.Program.releaseAll acquired .done :
        EntryProgram).Disciplined [] (acquired ++ []) false :=
    .releaseAll disciplined_done
  rwa [List.append_nil] at released

theorem disciplined_moveReferencesFrom
    {acquired : List Nat}
    (plan : List MovePlanEntry)
    {done : List MovePlanEntry}
    (isHeld :
      ∀ entry ∈ plan ++ done, ∀ address ∈ entry.ss, address ∈ acquired) :
    (moveReferencesFrom acquired done plan).Disciplined addresses acquired
      true := by
  induction plan generalizing done with
  | nil =>
      exact ⟨rfl, disciplined_releaseAll_done acquired⟩
  | cons entry rest inductionHypothesis =>
      unfold moveReferencesFrom
      split
      · exact inductionHypothesis fun other member =>
          isHeld other (List.mem_cons_of_mem entry member)
      · next address isSs =>
        refine ⟨isHeld entry (by simp) address isSs, fun answer => ?_⟩
        simp only
        split
        · refine disciplined_rollbackReferences
            (disciplined_releaseAll_refused acquired) fun other member => ?_
          exact isHeld other (List.mem_append_right _ member)
        · refine inductionHypothesis fun other member => isHeld other ?_
          rw [List.mem_append, List.mem_cons] at member
          rw [List.cons_append, List.mem_cons, List.mem_append]
          rcases member with later | rfl | earlier
          · exact .inr (.inl later)
          · exact .inl rfl
          · exact .inr (.inr earlier)

theorem disciplined_unloadReferences
    {rest : EntryProgram}
    (disciplined : rest.Disciplined addresses held true)
    {entries : List DeletePlanEntry}
    (isHeld : ∀ entry ∈ entries, ∀ address ∈ entry.ss, address ∈ held) :
    (unloadReferences rest entries).Disciplined addresses held true := by
  induction entries with
  | nil => exact disciplined
  | cons entry later inductionHypothesis =>
      have after := inductionHypothesis fun other member =>
        isHeld other (List.mem_cons_of_mem entry member)
      unfold unloadReferences
      split
      · exact after
      · next address isSs =>
        exact ⟨isHeld entry (by simp) address isSs, after⟩

theorem disciplined_deleteReferencesFrom
    {acquired : List Nat}
    {plan : List DeletePlanEntry}
    (isHeld : ∀ entry ∈ plan, ∀ address ∈ entry.ss, address ∈ acquired)
    (rest : List DeletePlanEntry)
    (isPlanned : ∀ entry ∈ rest, entry ∈ plan) :
    (deleteReferencesFrom acquired plan rest).Disciplined addresses acquired
      true := by
  induction rest with
  | nil =>
      have released :
          (References.Program.unlock (.releaseAll acquired .done) :
            EntryProgram).Disciplined addresses acquired true :=
        ⟨rfl, disciplined_releaseAll_done acquired⟩
      refine disciplined_unloadReferences released fun entry member => ?_
      rw [removalOrder, List.mem_insertionSort, List.mem_reverse] at member
      exact isHeld entry member
  | cons entry later inductionHypothesis =>
      have after := inductionHypothesis fun other member =>
        isPlanned other (List.mem_cons_of_mem entry member)
      unfold deleteReferencesFrom
      split
      · exact after
      · next address isSs =>
        refine ⟨isHeld entry (isPlanned entry (by simp)) address isSs,
          fun answer => ?_⟩
        simp only
        split
        · exact disciplined_releaseAll_refused acquired
        · exact after

/-- The checks and the loop are the planning of `MOVE`. -/
theorem planMove_eq (username srcPath destination : CString) :
    (planMove username srcPath destination :
      NsHandler Unit (List MovePlanEntry)) = (do
        let (finalRoot, taken) ← moveTaken username srcPath destination
        let plan ← planMoveEntries username srcPath finalRoot taken
        nsEnsure (plan ≠ []) errInternalError "Move plan was empty."
        return plan) := by
  unfold planMove moveTaken
  simp only [bind_assoc]
  refine bind_congr fun found => ?_
  rcases found with _ | ⟨index, srcMeta⟩
  · rfl
  · simp only [bind_assoc]
    refine bind_congr fun _ => ?_
    by_cases isRoot : destination = []
    · simp only [isRoot, ne_eq, not_true_eq_false, ↓reduceIte]
      rcases nsSplitParentChild srcPath with _ | ⟨parent, baseName⟩
      · rfl
      · simp only
        cases finalRootPath [] baseName with
        | none => rfl
        | some finalRoot => simp only [bind_assoc, pure_bind]
    · simp only [isRoot, ne_eq, not_false_eq_true, ↓reduceIte, bind_assoc]
      refine bind_congr fun _ => ?_
      rcases nsSplitParentChild srcPath with _ | ⟨parent, baseName⟩
      · rfl
      · simp only
        cases finalRootPath destination baseName with
        | none => rfl
        | some finalRoot => simp only [bind_assoc, pure_bind]

theorem planDelete_eq (username targetPath : CString) :
    (planDelete username targetPath :
      NsHandler Unit (List DeletePlanEntry)) = (do
        let taken ← deleteTaken username targetPath
        let plan ← planDeleteEntries username taken
        nsEnsure (plan ≠ []) errInternalError "Delete plan was empty."
        return plan) := by
  unfold planDelete deleteTaken
  simp only [bind_assoc]
  refine bind_congr fun found => ?_
  rcases found with _ | ⟨index, targetMeta⟩
  · rfl
  · simp only [bind_assoc]

namespace KeepsServers

theorem ensureFolder (folder : CString) (missing notFolder : String) :
    KeepsServers addresses (fun _ => True)
      (ensureFolder folder missing notFolder) := by
  unfold DistributedDocs.ensureFolder
  refine (lookup folder).bind fun found _ => ?_
  split
  · exact ensure
  · exact refuse _ _

theorem moveTaken (srcPath destination : CString) :
    KeepsServers addresses (fun _ => True)
      (moveTaken username srcPath destination) := by
  unfold DistributedDocs.moveTaken
  refine (lookup srcPath).bind fun found _ => ?_
  split
  · refine ensure.bind fun _ _ => ?_
    by_cases isRoot : destination = []
    · simp only [isRoot, ne_eq, not_true_eq_false, ↓reduceIte]
      split
      · split
        · refine ensure.bind fun _ _ => ensure.bind fun _ _ => ?_
          refine (looks _).bind fun taken _ => ?_
          exact pure trivial
        · exact refuse _ _
      · exact refuse _ _
    · simp only [isRoot, ne_eq, not_false_eq_true, ↓reduceIte]
      refine (ensureFolder _ _ _).bind fun _ _ => ?_
      split
      · split
        · refine ensure.bind fun _ _ => ensure.bind fun _ _ => ?_
          refine (looks _).bind fun taken _ => ?_
          exact pure trivial
        · exact refuse _ _
      · exact refuse _ _
  · exact refuse _ _

theorem deleteTaken (targetPath : CString) :
    KeepsServers addresses (fun _ => True)
      (deleteTaken username targetPath) := by
  unfold DistributedDocs.deleteTaken
  refine (lookup targetPath).bind fun found _ => ?_
  split
  · refine ensure.bind fun _ _ => ?_
    exact looks _
  · exact refuse _ _

theorem planMoveEntry
    (username srcPath finalRoot : CString)
    (file : FileMetadata) :
    KeepsServers addresses
      (fun entry => ∀ address ∈ entry.ss, address ∈ addresses)
      (planMoveEntry username srcPath finalRoot file) := by
  unfold DistributedDocs.planMoveEntry
  refine ensure.bind fun _ _ => ?_
  split
  · refine ensure.bind fun _ _ => (lookup _).bind fun _ _ => ?_
    refine ensure.bind fun _ _ => ?_
    unfold planRename
    split
    · exact pure fun _ none => by cases none
    · refine (home file).bind fun found inTable => ?_
      cases found with
      | none => exact refuse _ _
      | some ss =>
          simp only
          split
          · split
            · refine pure ?_
              rintro _ ⟨⟩
              exact inTable ss rfl
            · exact refuse _ _
          · exact refuse _ _
  · exact refuse _ _

theorem planDeleteEntry (username : CString) (file : FileMetadata) :
    KeepsServers addresses
      (fun entry => ∀ address ∈ entry.ss, address ∈ addresses)
      (planDeleteEntry username file) := by
  unfold DistributedDocs.planDeleteEntry
  refine ensure.bind fun _ _ => ?_
  split
  · exact pure fun _ none => by cases none
  · refine (home file).bind fun found inTable => ?_
    cases found with
    | none => exact refuse _ _
    | some ss =>
        refine pure ?_
        rintro _ ⟨⟩
        exact inTable ss rfl

end KeepsServers

/-- What a plan that is not empty says about the loop. -/
theorem planned_of_ok
    {Plan : Type}
    {plans : NsHandler Unit (List Plan)}
    {isPlan : List Plan → Bool}
    {text : String}
    {state after : NsState Unit}
    {plan : List Plan}
    (planned :
      (do
        let plan ← plans
        nsEnsure (isPlan plan) errInternalError text
        return plan) state = .ok plan after) :
    plans state = .ok plan after := by
  rw [bind_apply] at planned
  cases ran : plans state with
  | error refusal middle =>
      rw [ran] at planned
      cases planned
  | ok value middle =>
      rw [ran] at planned
      simp only [bind_apply, nsEnsure] at planned
      cases accepted : isPlan value with
      | false =>
          rw [accepted] at planned
          cases planned
      | true =>
          rw [accepted] at planned
          exact planned

theorem disciplined_moveReferences (msg : List CString) :
    (moveReferences username msg ns).Disciplined (entryAddresses ns) []
      true := by
  unfold moveReferences
  split
  · next type srcPath destFolder rest =>
    split
    · exact disciplined_refused
    · next destination normalized =>
      split
      · split
        · exact disciplined_refused
        · next finalRoot taken looked returned =>
          have has :=
            ((KeepsServers.moveTaken srcPath destination).of_ok returned).2
          have inTable :=
            mem_of_acquiredByPlanning MovePlanEntry.ss
              (KeepsServers.planMoveEntry username srcPath finalRoot) taken has
          simp only
          split
          · exact .acquireAll inTable
              ((disciplined_releaseAll_refused _).perm (by simp))
          · next plan after planned =>
            rw [decided, planMove_eq, bind_apply] at planned
            rw [decided] at returned
            rw [returned] at planned
            have loop := planned_of_ok planned
            have same :=
              acquiredByPlanning_eq MovePlanEntry.ss rfl (fun _ _ => rfl) loop
            refine .acquireAll inTable
              ((disciplined_moveReferencesFrom plan ?_).perm (by simp))
            intro entry member address isSs
            rw [List.append_nil] at member
            rw [same]
            exact List.mem_filterMap.mpr ⟨entry, member, isSs⟩
      · exact disciplined_refused
  · exact disciplined_refused

theorem disciplined_deleteReferences (msg : List CString) :
    (deleteReferences username msg ns).Disciplined (entryAddresses ns) []
      true := by
  unfold deleteReferences
  split
  · next type targetPath rest =>
    split
    · split
      · exact disciplined_refused
      · next taken looked returned =>
        have has := ((KeepsServers.deleteTaken targetPath).of_ok returned).2
        have inTable :=
          mem_of_acquiredByPlanning DeletePlanEntry.ss
            (KeepsServers.planDeleteEntry username) taken has
        simp only
        split
        · exact .acquireAll inTable
            ((disciplined_releaseAll_refused _).perm (by simp))
        · next plan after planned =>
          rw [decided, planDelete_eq, bind_apply] at planned
          rw [decided] at returned
          rw [returned] at planned
          have loop := planned_of_ok planned
          have same :=
            acquiredByPlanning_eq DeletePlanEntry.ss rfl (fun _ _ => rfl) loop
          refine .acquireAll inTable
            ((disciplined_deleteReferencesFrom ?_ plan
              fun _ member => member).perm (by simp))
          intro entry member address isSs
          rw [same]
          exact List.mem_filterMap.mpr ⟨entry, member, isSs⟩
    · exact disciplined_refused
  · exact disciplined_refused

/-- Every command but a `COPY` between two storage servers is disciplined. -/
theorem disciplined_program
    {command : ReferencingCommand}
    (isLocal :
      ∀ msg, command = .copy msg → copyIsLocal username msg ns = true) :
    (command.program username ns).Disciplined (entryAddresses ns) [] true := by
  cases command with
  | exec now msg => exact disciplined_execReferences now msg
  | approveAccess msg => exact disciplined_approveAccessReferences msg
  | copy msg => exact disciplined_copyReferences (isLocal msg rfl)
  | create msg => exact disciplined_createReferences msg
  | move msg => exact disciplined_moveReferences msg
  | delete msg => exact disciplined_deleteReferences msg
  | addAccess msg =>
      exact disciplined_accessReferences (KeepsServers.beginAddAccess msg)
  | remAccess msg =>
      exact disciplined_accessReferences (KeepsServers.beginRemAccess msg)

end Acquiring

/-! ## Runs -/

/-- No storage server is registered, and no command has begun. -/
def idleReferences : ReferenceState :=
  ⟨nsInit, .empty⟩

/-- The counts are right, and the registered entries are in the table. -/
structure ReferencesTracked (state : ReferenceState) : Prop where
  sound : ∃ held, References.Sound held state.refs
  inTable : entryAddresses state.ns ⊆ state.refs.table

theorem ReferencesTracked.step
    {state : ReferenceState}
    (tracked : ReferencesTracked state)
    {event : ReferenceEvent}
    (copiesLocally : CopiesLocally state event) :
    ReferencesTracked (referenceStep state event) := by
  obtain ⟨held, sound⟩ := tracked.sound
  cases event with
  | command username command =>
      refine ⟨?_, ?_⟩
      · by_cases isFree : state.refs.holder = none
        · have begun :
              (command.program username state.ns).Disciplined
                (entryAddresses state.ns) [] true := by
            refine disciplined_program ?_
            rintro msg rfl
            exact copiesLocally isFree
          exact sound.begin (begun.mono fun entry => @tracked.inTable entry)
        · refine ⟨held, ?_⟩
          have waits :
              References.step state.refs
                  (.begin (command.program username state.ns)) =
                state.refs :=
            if_neg isFree
          simp only [referenceStep, waits]
          exact sound
      · simp only [referenceStep, References.table_begin]
        exact tracked.inTable
  | advance thread answer choice =>
      refine ⟨sound.advance thread answer choice, ?_⟩
      simp only [referenceStep, References.table_advance]
      exact tracked.inTable
  | registry ns =>
      unfold referenceStep
      simp only
      split
      · next fewer =>
        exact ⟨tracked.sound, List.Subset.trans fewer tracked.inTable⟩
      · exact tracked
  | connect ss =>
      unfold referenceStep
      simp only
      split
      · next joined =>
        refine ⟨⟨held, sound.join ss.address⟩, ?_⟩
        intro address registered
        simp only [entryAddresses, List.map_append, List.map_singleton,
          List.mem_append, List.mem_singleton] at registered
        rcases registered with earlier | rfl
        · exact References.mem_table_join (tracked.inTable earlier)
        · exact joined
      · exact tracked
  | teardown address =>
      unfold referenceStep
      simp only
      split
      · refine ⟨⟨held, sound.leave address⟩, ?_⟩
        intro other registered
        obtain ⟨ss, member, rfl⟩ := List.mem_map.mp registered
        obtain ⟨present, different⟩ := List.mem_filter.mp member
        exact References.mem_table_leave
          (tracked.inTable (List.mem_map_of_mem present))
          (by simpa using different)
      · exact tracked
  | free address =>
      refine ⟨⟨held, sound.free address⟩, ?_⟩
      simp only [referenceStep, References.table_free]
      exact tracked.inTable

/--
The reference counts protect the entries in every run in which no `COPY` goes
from one storage server to another.
-/
theorem countsProtect_of_copiesLocally
    (events : List ReferenceEvent)
    (guarded : GuardedRun referenceStep CopiesLocally idleReferences events) :
    References.CountsProtect
      (runFrom referenceStep idleReferences events).refs := by
  have initially : ReferencesTracked idleReferences :=
    ⟨⟨_, References.sound_empty⟩, List.nil_subset _⟩
  obtain ⟨held, sound⟩ :=
    (GuardedRun.invariant (fun _ _ tracked => tracked.step) initially
      guarded).sound
  exact sound.countsProtect

/-! ## A `COPY` on one server, and one between two -/

/-- `ada` has two files on these storage servers. -/
def registryOf (servers : List StorageServerInfo) : NameServer :=
  (runFrom (nsStep acceptingStorage) ⟨nsInit, ()⟩
    [.servers servers,
      .command 1 (str "ada") (.create [str "CREATE", str "plan"]),
      .command 2 (str "ada") (.create [str "CREATE", str "note"])]).ns

/-- The storage servers connect, and a `COPY` goes on to its request. -/
def copying (servers : List StorageServerInfo) : List ReferenceEvent :=
  servers.map .connect ++
    [.registry (registryOf servers),
      .command (str "ada") (.copy [str "COPY", str "plan", str "note"]),
      .advance 0 .unparsable false,
      .advance 0 .unparsable false]

/-- The one storage server is held while it is asked. -/
theorem countsProtect_copying_locally :
    References.CountsProtect
        (runFrom referenceStep idleReferences
          (copying [someStorageServer])).refs ∧
      (runFrom referenceStep idleReferences
        (copying [someStorageServer])).refs.counts 0 = 1 :=
  ⟨countsProtect_of_copiesLocally (copying [someStorageServer])
    (by decide +kernel), by decide +kernel⟩

/-- The source's entry is still to be read, and nobody holds it. -/
theorem not_countsProtect_copying :
    ¬References.CountsProtect
      (runFrom referenceStep idleReferences
        (copying [someStorageServer, secondStorageServer])).refs := by
  intro protect
  have unheld :
      (runFrom referenceStep idleReferences
              (copying [someStorageServer, secondStorageServer])).refs.holder =
          none ∧
        ((runFrom referenceStep idleReferences
                (copying [someStorageServer, secondStorageServer])).refs
              |>.threads[0]?.bind References.Program.next?) =
            some 0 ∧
          (runFrom referenceStep idleReferences
              (copying [someStorageServer, secondStorageServer])).refs.counts
              0 =
            0 := by
    decide +kernel
  obtain ⟨isFree, isNext, count⟩ := unheld
  obtain ⟨program, running, next⟩ := Option.bind_eq_some_iff.mp isNext
  have positive :=
    protect.positive 0 program running (by simp [isFree]) 0
      (References.Program.willUse_of_next? next)
  rw [count] at positive
  exact lt_irrefl 0 positive

end DistributedDocs
