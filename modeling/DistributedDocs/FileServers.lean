import DistributedDocs.NameServerMove
import DistributedDocs.ServerLoads
import DistributedDocs.StorageNames

namespace DistributedDocs

/-!
# Storage servers that keep to their answers

What the name server relies on when it creates, deletes and renames files: a
request that is answered with success has been carried out, and one that is
refused has changed no name.  Under this contract every command keeps the
registry and the storage servers in agreement, unless it stops half-way through
its plan and cannot undo what it has done.
-/

/-! ## Homes -/

/-- What of a storage server decides which files are homed on it. -/
def endpointOf (ss : StorageServerInfo) : Nat × CString × Int × Int × Bool :=
  (ss.address, ss.clientIp, ss.clientPort, ss.sockfd, ss.isAlive)

/-- The connections of the name server. -/
def connectionsOf (ns : NameServer) : List (Nat × CString × Int × Int × Bool) :=
  ns.storageServers.map endpointOf

/-- What of an entry decides where its file is. -/
def placeOf (file : FileMetadata) : CString × Bool × CString × Int :=
  (file.filename, file.isDirectory, file.ssIp, file.ssPort)

/-- A connected storage server. -/
def StorageServerInfo.IsConnected (ss : StorageServerInfo) : Prop :=
  ss.isAlive = true ∧ 0 ≤ ss.sockfd

/-- There is a file of this name, homed on the server at this address. -/
def HomedName (ns : NameServer) (address : Nat) (name : CString) : Prop :=
  ∃ file ∈ ns.files,
    file.isDirectory = false ∧ file.filename = name ∧
      (homeOf file ns).map StorageServerInfo.address = some address

section Homes

variable {before after : NameServer}

/-- Where a file is homed depends on the connections only. -/
theorem homeAddress_congr
    (same : connectionsOf after = connectionsOf before)
    (file : FileMetadata) :
    (homeOf file after).map StorageServerInfo.address =
      (homeOf file before).map StorageServerInfo.address := by
  have ofEndpoints :
      ∀ ns : NameServer,
        (homeOf file ns).map StorageServerInfo.address =
          ((connectionsOf ns).find? fun endpoint =>
            (endpoint.2.2.2.2 && 0 ≤ endpoint.2.2.2.1) &&
              (strncmpEq endpoint.2.1 file.ssIp maxIpLength &&
                endpoint.2.2.1 = file.ssPort)).map Prod.fst := by
    intro ns
    rw [connectionsOf, List.find?_map, Option.map_map]
    rfl
  rw [ofEndpoints, ofEndpoints, same]

/-- The homed names depend on the connections and the places. -/
theorem homedName_congr
    (connections : connectionsOf after = connectionsOf before)
    (places : after.files.map placeOf = before.files.map placeOf)
    (address : Nat)
    (name : CString) :
    HomedName after address name ↔ HomedName before address name := by
  have carried :
      ∀ {first second : NameServer},
        connectionsOf second = connectionsOf first →
          second.files.map placeOf = first.files.map placeOf →
            HomedName first address name → HomedName second address name := by
    rintro first second sameEndpoints samePlaces
      ⟨file, present, notFolder, named, homed⟩
    have placed : placeOf file ∈ second.files.map placeOf :=
      samePlaces ▸ List.mem_map_of_mem present
    obtain ⟨other, otherPresent, same⟩ := List.mem_map.mp placed
    simp only [placeOf, Prod.mk.injEq] at same
    obtain ⟨sameName, sameKind, sameIp, samePort⟩ := same
    refine ⟨other, otherPresent, sameKind.trans notFolder,
      sameName.trans named, ?_⟩
    have sameHome : homeOf other second = homeOf file second := by
      rw [homeOf, sameIp, samePort, homeOf]
    rw [sameHome, homeAddress_congr sameEndpoints, homed]
  exact ⟨carried connections.symm places.symm, carried connections places⟩

theorem connectionsOf_of_servers
    (same : after.storageServers = before.storageServers) :
    connectionsOf after = connectionsOf before := by
  rw [connectionsOf, same, connectionsOf]

/-- A change of totals keeps the connections. -/
theorem connectionsOf_changeServer
    {change : StorageServerInfo → StorageServerInfo}
    (keeps : ∀ ss, endpointOf (change ss) = endpointOf ss)
    (address : Nat)
    (ns : NameServer) :
    connectionsOf (changeServer address change ns) = connectionsOf ns := by
  rw [connectionsOf, changeServer, List.map_map, connectionsOf]
  refine List.map_congr_left fun ss _ => ?_
  simp only [Function.comp_apply]
  split
  · exact keeps ss
  · rfl

theorem connectionsOf_select (ns : NameServer) :
    connectionsOf (nsSelectStorageServerBalanced ns).2 = connectionsOf ns := by
  rw [connectionsOf, storageServers_select, List.map_map, connectionsOf]
  refine List.map_congr_left fun ss _ => ?_
  simp only [Function.comp_apply, clampLoads]
  split <;> rfl

theorem connectionsOf_applyDelete
    (plan : List DeletePlanEntry)
    (ns : NameServer) :
    connectionsOf (applyDelete plan ns) = connectionsOf ns := by
  rw [applyDelete]
  induction removalOrder plan generalizing ns with
  | nil =>
      rfl
  | cons entry rest inductionHypothesis =>
      have step : connectionsOf (applyDeleteEntry ns entry) = connectionsOf ns := by
        have servers := storageServers_remove entry.path ns
        unfold applyDeleteEntry
        generalize removeFileMetadataLocked entry.path ns = pair at servers
        obtain ⟨found, left⟩ := pair
        have kept : connectionsOf left = connectionsOf ns := connectionsOf_of_servers servers
        cases found with
        | false => exact kept
        | true =>
            cases entry.ss with
            | none => exact kept
            | some address =>
                have keeps :
                    ∀ ss, endpointOf (unloaded entry.size ss) = endpointOf ss :=
                  fun _ => rfl
                exact (connectionsOf_changeServer keeps address left).trans kept
      exact (inductionHypothesis _).trans step

/-- The connections say which servers are connected. -/
theorem exists_of_connections
    (same : connectionsOf after = connectionsOf before)
    {ss : StorageServerInfo}
    (member : ss ∈ after.storageServers) :
    ∃ former ∈ before.storageServers, endpointOf former = endpointOf ss := by
  have held : endpointOf ss ∈ connectionsOf before :=
    same ▸ List.mem_map_of_mem member
  exact List.mem_map.mp held

theorem ServersSound.of_connections
    (sound : ServersSound before.storageServers)
    (same : connectionsOf after = connectionsOf before) :
    ServersSound after.storageServers where
  addresses := by
    have addresses :
        ∀ ns : NameServer,
          ns.storageServers.map StorageServerInfo.address =
            (connectionsOf ns).map Prod.fst := by
      intro ns
      rw [connectionsOf, List.map_map]
      rfl
    rw [addresses, same, ← addresses]
    exact sound.addresses
  endpoints := by
    intro first firstMember second secondMember firstAlive secondAlive sameIp
      samePort
    obtain ⟨former, formerMember, isFormer⟩ :=
      exists_of_connections same firstMember
    obtain ⟨other, otherMember, isOther⟩ :=
      exists_of_connections same secondMember
    simp only [endpointOf, Prod.mk.injEq] at isFormer isOther
    obtain ⟨address, ip, port, _, alive⟩ := isFormer
    obtain ⟨otherAddress, otherIp, otherPort, _, otherAlive⟩ := isOther
    rw [← address, ← otherAddress]
    refine sound.endpoints former formerMember other otherMember
      (alive.trans firstAlive) (otherAlive.trans secondAlive) ?_ ?_
    · rw [ip, otherIp, sameIp]
    · rw [port, otherPort, samePort]

end Homes

/-! ## The commands -/

/-- The commands that make, remove, rename and copy entries. -/
inductive FileCommand where
  | create (msg : List CString)
  | createFolder (msg : List CString)
  | delete (msg : List CString)
  | move (msg : List CString)
  | copy (msg : List CString)
  deriving DecidableEq

/-- The command of the client loop. -/
def FileCommand.toCommand : FileCommand → NsCommand
  | .create msg => .create msg
  | .createFolder msg => .createFolder msg
  | .delete msg => .delete msg
  | .move msg => .move msg
  | .copy msg => .copy msg

/-! ## The contract -/

/-- What storage servers hold, by address and name. -/
abbrev HeldNames :=
  NamedStore Nat CString Unit

/-- A name more at one address. -/
def withName (address : Nat) (name : CString) (held : HeldNames) : HeldNames :=
  fun server other =>
    if server = address ∧ other = name then some () else held server other

/-- A name less at one address. -/
def withoutName
    (address : Nat)
    (name : CString)
    (held : HeldNames) : HeldNames :=
  fun server other =>
    if server = address ∧ other = name then none else held server other

/-- What is held decides, since a name carries nothing. -/
theorem heldNames_ext
    {first second : HeldNames}
    (same :
      ∀ address name,
        (first address name).isSome = true ↔
          (second address name).isSome = true) :
    first = second := by
  funext address name
  have here := same address name
  cases isFirst : first address name with
  | none =>
      cases isSecond : second address name with
      | none => rfl
      | some _ => simp [isFirst, isSecond] at here
  | some _ =>
      cases isSecond : second address name with
      | none => simp [isFirst, isSecond] at here
      | some _ => rfl

@[simp] theorem withName_isSome_iff
    (address : Nat)
    (name : CString)
    (held : HeldNames)
    (server : Nat)
    (other : CString) :
    (withName address name held server other).isSome = true ↔
      server = address ∧ other = name ∨
        (held server other).isSome = true := by
  unfold withName
  split
  · next isName => simp [isName]
  · next notName => simp [notName]

@[simp] theorem withoutName_isSome_iff
    (address : Nat)
    (name : CString)
    (held : HeldNames)
    (server : Nat)
    (other : CString) :
    (withoutName address name held server other).isSome = true ↔
      (held server other).isSome = true ∧
        ¬(server = address ∧ other = name) := by
  unfold withoutName
  split
  · next isName => simp [isName]
  · next notName => simp only [notName, not_false_eq_true, and_true]

/-- Storage servers, and which requests they refuse. -/
structure StorageAnswers (World : Type) where
  backend : Backend World
  /-- Whether a file they hold is not deleted. -/
  refusesDelete : Nat → CString → World → Bool
  /-- Whether a file they hold is not renamed. -/
  refusesRename : Nat → CString → CString → World → Bool

/-- Storage servers that keep to their answers. -/
structure FileServers (World : Type) extends StorageAnswers World where
  /-- The names they hold. -/
  held : World → HeldNames
  /-- What is true of them all the time. -/
  Sound : World → Prop
  /-- The addresses at which there is a server. -/
  Serves : Nat → Prop
  create :
    ∀ {address filename world} (owner : CString),
      Serves address → Sound world → held world address filename = none →
        let ended :=
          backend address [str "CREATE_FILE", filename, owner] world
        Sound ended.2 ∧
          (isRefusal ended.1 = true ∧ held ended.2 = held world ∨
            ended.1 = .message [str "OK_CREATE", filename] ∧
              held ended.2 = withName address filename (held world))
  delete :
    ∀ {address path world},
      Sound world → (held world address path).isSome = true →
        let ended := backend address [str "DELETE_FILE", path] world
        Sound ended.2 ∧
          if refusesDelete address path world then
            isRefusal ended.1 = true ∧ held ended.2 = held world
          else
            ended.1 = .message [str "OK_DELETE", path] ∧
              held ended.2 = withoutName address path (held world)
  rename :
    ∀ {address old new world},
      Sound world → Renaming.Possible (held world) ⟨address, old, new⟩ →
        let ended := backend address (ssRenameMessage old new) world
        Sound ended.2 ∧
          if refusesRename address old new world then
            (renameFailure ended.1).isSome = true ∧
              held ended.2 = held world
          else
            ended.1 = .message [str "OK"] ∧
              held ended.2 =
                Renaming.apply ⟨address, old, new⟩ (held world)
  copy :
    ∀ (address : Nat) (arguments : List CString) {world},
      Sound world →
        let ended := backend address (str "SS_COPY" :: arguments) world
        Sound ended.2 ∧ held ended.2 = held world

/-! ### Commands that are not stopped half-way -/

namespace StorageAnswers

variable
  {World : Type}
  (servers : StorageAnswers World)

/-- The world after a request. -/
def after
    (address : Nat)
    (request : List CString)
    (world : World) : World :=
  (servers.backend address request world).2

/-- No deletion of the plan is refused. -/
def deletesAll : List DeletePlanEntry → World → Bool
  | [], _ =>
      true
  | entry :: rest, world =>
      match entry.ss with
      | none => deletesAll rest world
      | some address =>
          !servers.refusesDelete address entry.path world &&
            deletesAll rest
              (servers.after address [str "DELETE_FILE", entry.path] world)

/-- If a deletion of the plan is refused, it is the first. -/
def deletesAllOrNone : List DeletePlanEntry → World → Bool
  | [], _ =>
      true
  | entry :: rest, world =>
      match entry.ss with
      | none => deletesAllOrNone rest world
      | some address =>
          servers.refusesDelete address entry.path world ||
            servers.deletesAll rest
              (servers.after address [str "DELETE_FILE", entry.path] world)

/-- No renaming that takes one back is refused; the last one comes first. -/
def takesBack : List MovePlanEntry → World → Bool
  | [], _ =>
      true
  | entry :: rest, world =>
      match entry.ss with
      | none => takesBack rest world
      | some address =>
          !servers.refusesRename address entry.newPath entry.oldPath world &&
            takesBack rest
              (servers.after address (rollbackRequest entry) world)

/-- If a renaming of the plan is refused, those made can be taken back. -/
def renamesAllOrNone (done : List MovePlanEntry) :
    List MovePlanEntry → World → Bool
  | [], _ =>
      true
  | entry :: rest, world =>
      match entry.ss with
      | none => renamesAllOrNone done rest world
      | some address =>
          let later := servers.after address (renameRequest entry) world
          if servers.refusesRename address entry.oldPath entry.newPath
              world then
            servers.takesBack done later
          else
            renamesAllOrNone (entry :: done) rest later

/-- A `DELETE` that is not refused after it has deleted something. -/
def sparesDelete
    (username : CString)
    (msg : List CString)
    (state : NsState World) : Bool :=
  match msg with
  | _ :: targetPath :: _ =>
      if nsValidateLogicalPath targetPath && username ≠ [] then
        match planDelete username targetPath state with
        | .ok plan looked => servers.deletesAllOrNone plan looked.world
        | .error _ _ => true
      else
        true
  | _ => true

/-- A `MOVE` that can be taken back if it is refused half-way. -/
def sparesMove
    (username : CString)
    (msg : List CString)
    (state : NsState World) : Bool :=
  match msg with
  | _ :: srcPath :: destFolder :: _ =>
      if nsValidateLogicalPath srcPath && username ≠ [] then
        match nsNormalizeDestination destFolder with
        | some destination =>
            match planMove username srcPath destination state with
            | .ok plan looked =>
                servers.renamesAllOrNone [] plan looked.world
            | .error _ _ => true
        | none => true
      else
        true
  | _ => true

/-- No storage server stops the command half-way for good. -/
def spares
    (username : CString)
    (command : FileCommand)
    (state : NsState World) : Bool :=
  match command with
  | .delete msg => servers.sparesDelete username msg state
  | .move msg => servers.sparesMove username msg state
  | .create _ | .createFolder _ | .copy _ => true

end StorageAnswers

namespace FileServers

variable
  {World : Type}
  (servers : FileServers World)

/-- The registry and the storage servers agree on which files there are. -/
def Agrees (state : NsState World) : Prop :=
  HoldsHomed ⟨state.ns, ⟨servers.held state.world, none⟩⟩

/-! ## Deleting what a plan names -/

/-- What is held after the deletions of a plan. -/
def heldWithout (held : HeldNames) (plan : List DeletePlanEntry) :
    HeldNames :=
  plan.foldl
    (fun left entry =>
      match entry.ss with
      | some address => withoutName address entry.path left
      | none => left)
    held

theorem heldWithout_isSome_iff
    {plan : List DeletePlanEntry}
    {held : HeldNames}
    (address : Nat)
    (name : CString) :
    (heldWithout held plan address name).isSome = true ↔
      (held address name).isSome = true ∧
        ∀ entry ∈ plan, entry.ss = some address → entry.path ≠ name := by
  induction plan generalizing held with
  | nil =>
      simp [heldWithout]
  | cons entry rest inductionHypothesis =>
      rw [heldWithout, List.foldl_cons]
      refine inductionHypothesis.trans ?_
      cases home : entry.ss with
      | none =>
          simp [home]
      | some server =>
          have here :
              (withoutName server entry.path held address name).isSome =
                  true ↔
                (held address name).isSome = true ∧
                  (server = address → entry.path ≠ name) := by
            rw [withoutName_isSome_iff, not_and]
            refine and_congr_right fun _ => ?_
            rw [@eq_comm _ address, @eq_comm _ name]
          simp only [here, and_assoc, List.forall_mem_cons, home,
            Option.some.injEq]

section Deleting

variable
  {plan : List DeletePlanEntry}
  {ns : NameServer}
  {world : World}

/-- The files of a plan are held, and their names are different. -/
structure PlanHeld
    (plan : List DeletePlanEntry)
    (world : World) : Prop where
  held :
    ∀ entry ∈ plan, ∀ address, entry.ss = some address →
      (servers.held world address entry.path).isSome = true
  distinct : (plan.map DeletePlanEntry.path).Nodup

variable {servers}

theorem PlanHeld.tail
    {entry : DeletePlanEntry}
    (planHeld : servers.PlanHeld (entry :: plan) world)
    {later : World}
    {address : Nat}
    (left :
      servers.held later =
        withoutName address entry.path (servers.held world)) :
    servers.PlanHeld plan later where
  held other member server home := by
    have isHeld := planHeld.held other (by simp [member]) server home
    have different : other.path ≠ entry.path := by
      have apart := planHeld.distinct
      rw [List.map_cons, List.nodup_cons] at apart
      exact fun same => apart.1 (same ▸ List.mem_map_of_mem member)
    rw [left, withoutName, if_neg (fun both => different both.2)]
    exact isHeld
  distinct := by
    have apart := planHeld.distinct
    rw [List.map_cons, List.nodup_cons] at apart
    exact apart.2

theorem PlanHeld.skip
    {entry : DeletePlanEntry}
    (planHeld : servers.PlanHeld (entry :: plan) world) :
    servers.PlanHeld plan world where
  held other member := planHeld.held other (by simp [member])
  distinct := by
    have apart := planHeld.distinct
    rw [List.map_cons, List.nodup_cons] at apart
    exact apart.2

/-- An error message is a failure, whatever reply is hoped for. -/
theorem answerFailure_of_isRefusal
    {expected malformed unexpected : String}
    {answer : SsAnswer}
    (refused : isRefusal answer = true) :
    (answerFailure expected malformed unexpected answer).isSome = true := by
  unfold isRefusal at refused
  split at refused
  · next type arguments =>
    simp [answerFailure, of_decide_eq_true refused]
  · cases refused

theorem deleteFailure_of_isRefusal
    {answer : SsAnswer}
    (refused : isRefusal answer = true) :
    (deleteFailure answer).isSome = true := by
  rw [deleteFailure, Option.isSome_map]
  exact answerFailure_of_isRefusal refused

theorem deleteFailure_ok (path : CString) :
    deleteFailure (.message [str "OK_DELETE", path]) = none := by
  have other : str "OK_DELETE" ≠ str "ERR" := by decide
  simp [deleteFailure, answerFailure, other]

/-- Without refusal everything the plan names is deleted. -/
theorem deleteOnStorage_all
    (sound : servers.Sound world)
    (planHeld : servers.PlanHeld plan world)
    (accepted : servers.deletesAll plan world = true) :
    ∃ final,
      deleteOnStorage servers.backend plan ⟨ns, world⟩ =
          .ok () ⟨ns, final⟩ ∧
        servers.Sound final ∧
          servers.held final = heldWithout (servers.held world) plan := by
  induction plan generalizing world with
  | nil =>
      exact ⟨world, rfl, sound, rfl⟩
  | cons entry rest inductionHypothesis =>
      cases home : entry.ss with
      | none =>
          simp only [StorageAnswers.deletesAll, home] at accepted
          obtain ⟨final, deleted, stillSound, left⟩ :=
            inductionHypothesis sound planHeld.skip accepted
          refine ⟨final, ?_, stillSound, ?_⟩
          · simp only [deleteOnStorage, home]
            exact deleted
          · rw [left, heldWithout, heldWithout, List.foldl_cons, home]
      | some address =>
          simp only [StorageAnswers.deletesAll, home, Bool.and_eq_true, Bool.not_eq_true']
            at accepted
          have isHeld := planHeld.held entry (by simp) address home
          obtain ⟨afterSound, ended⟩ := servers.delete sound isHeld
          rw [if_neg (by simp [accepted.1])] at ended
          obtain ⟨answer, left⟩ := ended
          obtain ⟨final, deleted, stillSound, finalLeft⟩ :=
            inductionHypothesis afterSound (planHeld.tail left) accepted.2
          refine ⟨final, ?_, stillSound, ?_⟩
          · simp only [deleteOnStorage, home, bind_apply, sendAndWait,
              modifyGet_apply, answer, deleteFailure_ok]
            exact deleted
          · rw [finalLeft, heldWithout, heldWithout, List.foldl_cons, home,
              left]

/-- Everything the plan names is deleted, or nothing is. -/
theorem deleteOnStorage_allOrNone
    (sound : servers.Sound world)
    (planHeld : servers.PlanHeld plan world)
    (allOrNone : servers.deletesAllOrNone plan world = true) :
    (∃ final,
      deleteOnStorage servers.backend plan ⟨ns, world⟩ =
          .ok () ⟨ns, final⟩ ∧
        servers.Sound final ∧
          servers.held final = heldWithout (servers.held world) plan) ∨
      ∃ refusal final,
        deleteOnStorage servers.backend plan ⟨ns, world⟩ =
            .error refusal ⟨ns, final⟩ ∧
          servers.Sound final ∧ servers.held final = servers.held world := by
  induction plan with
  | nil =>
      exact Or.inl ⟨world, rfl, sound, rfl⟩
  | cons entry rest inductionHypothesis =>
      cases home : entry.ss with
      | none =>
          simp only [StorageAnswers.deletesAllOrNone, home] at allOrNone
          have skipped : heldWithout (servers.held world) (entry :: rest) =
              heldWithout (servers.held world) rest := by
            rw [heldWithout, List.foldl_cons, home, heldWithout]
          simp only [deleteOnStorage, home, skipped]
          exact inductionHypothesis planHeld.skip allOrNone
      | some address =>
          simp only [StorageAnswers.deletesAllOrNone, home, Bool.or_eq_true] at allOrNone
          by_cases refused :
              servers.refusesDelete address entry.path world = true
          · have isHeld := planHeld.held entry (by simp) address home
            obtain ⟨afterSound, ended⟩ := servers.delete sound isHeld
            rw [if_pos refused] at ended
            obtain ⟨failure, isFailure⟩ := Option.isSome_iff_exists.mp
              (deleteFailure_of_isRefusal ended.1)
            refine Or.inr ⟨failure, _, ?_, afterSound, ended.2⟩
            simp only [deleteOnStorage, home, bind_apply, sendAndWait,
              modifyGet_apply, isFailure, throw_apply]
          · have accepted := allOrNone.resolve_left refused
            refine Or.inl (deleteOnStorage_all sound planHeld ?_)
            simp only [StorageAnswers.deletesAll, home, Bool.and_eq_true,
              Bool.not_eq_true']
            exact ⟨by simpa using refused, accepted⟩

end Deleting

/-! ## Renaming what a plan names -/

section Renaming

variable
  {servers : FileServers World}
  {original : HeldNames}
  {done plan : List MovePlanEntry}
  {ns : NameServer}
  {world : World}

/-- The flat names in a plan are those the storage server expects. -/
def FlatNames (plan : List MovePlanEntry) : Prop :=
  ∀ entry ∈ plan, ∀ address, entry.ss = some address →
    entry.oldFlat = physicalNameOf entry.oldPath ∧
      entry.newFlat = physicalNameOf entry.newPath

theorem FlatNames.renameRequest
    {entry : MovePlanEntry}
    (flat : FlatNames (entry :: plan))
    {address : Nat}
    (home : entry.ss = some address) :
    DistributedDocs.renameRequest entry =
      ssRenameMessage entry.oldPath entry.newPath := by
  obtain ⟨oldFlat, newFlat⟩ := flat entry (by simp) address home
  rw [DistributedDocs.renameRequest, ssRenameMessage, oldFlat, newFlat]

theorem FlatNames.rollbackRequest
    {entry : MovePlanEntry}
    (flat : FlatNames (entry :: plan))
    {address : Nat}
    (home : entry.ss = some address) :
    DistributedDocs.rollbackRequest entry =
      ssRenameMessage entry.newPath entry.oldPath := by
  obtain ⟨oldFlat, newFlat⟩ := flat entry (by simp) address home
  rw [DistributedDocs.rollbackRequest, ssRenameMessage, oldFlat, newFlat]

theorem FlatNames.tail
    {entry : MovePlanEntry}
    (flat : FlatNames (entry :: plan)) :
    FlatNames plan :=
  fun other member => flat other (by simp [member])

theorem renameFailure_ok : renameFailure (.message [str "OK"]) = none := by
  decide

/-- A rollback in which nothing is refused takes everything back. -/
theorem rollbackRenames_restores
    (sound : servers.Sound world)
    (renamed : RenamedTo original done (servers.held world))
    (flat : FlatNames done)
    (accepted : servers.takesBack done world = true) :
    ∃ final,
      rollbackRenames servers.backend done ⟨ns, world⟩ =
          .ok () ⟨ns, final⟩ ∧
        servers.Sound final ∧ servers.held final = original := by
  induction done generalizing world with
  | nil =>
      generalize isHeld : servers.held world = held at renamed
      cases renamed
      exact ⟨world, rfl, sound, isHeld⟩
  | cons entry rest inductionHypothesis =>
      generalize isHeld : servers.held world = held at renamed
      cases renamed with
      | @cons _ documents _ address earlier home possible =>
          simp only [StorageAnswers.takesBack, home, Bool.and_eq_true, Bool.not_eq_true',
            StorageAnswers.after] at accepted
          have back :
              Renaming.Possible (servers.held world)
                ⟨address, entry.newPath, entry.oldPath⟩ :=
            isHeld ▸ possible.inverse
          have restored := possible.apply_inverse
          rw [Renaming.inverse, ← isHeld] at restored
          obtain ⟨afterSound, ended⟩ := servers.rename sound back
          rw [if_neg (by simp [accepted.1]), restored] at ended
          have request := flat.rollbackRequest home
          rw [request] at accepted
          obtain ⟨final, rolledBack, stillSound, isOriginal⟩ :=
            inductionHypothesis afterSound (ended.2 ▸ earlier) flat.tail
              accepted.2
          refine ⟨final, ?_, stillSound, isOriginal⟩
          simp only [rollbackRenames, home, request, bind_apply, sendAndWait,
            modifyGet_apply]
          exact rolledBack

/-- All renames of the plan are made, or everything is as before. -/
theorem renameOnStorage_allOrNone
    (sound : servers.Sound world)
    (renamed : RenamedTo original done (servers.held world))
    (apart :
      Renaming.Apart (servers.held world) (plan.filterMap renamingOf))
    (doneFlat : FlatNames done)
    (flat : FlatNames plan)
    (allOrNone : servers.renamesAllOrNone done plan world = true) :
    (∃ final,
      renameOnStorage servers.backend done plan ⟨ns, world⟩ =
          .ok () ⟨ns, final⟩ ∧
        servers.Sound final ∧
          servers.held final =
            Renaming.applyAll (plan.filterMap renamingOf)
              (servers.held world)) ∨
      ∃ refusal final,
        renameOnStorage servers.backend done plan ⟨ns, world⟩ =
            .error refusal ⟨ns, final⟩ ∧
          servers.Sound final ∧ servers.held final = original := by
  induction plan generalizing done world with
  | nil =>
      exact Or.inl ⟨world, rfl, sound, rfl⟩
  | cons entry rest inductionHypothesis =>
      cases home : entry.ss with
      | none =>
          have skipped : renamingOf entry = none := by
            simp [renamingOf, home]
          simp only [List.filterMap_cons, skipped] at apart ⊢
          simp only [StorageAnswers.renamesAllOrNone, home] at allOrNone
          simp only [renameOnStorage, home]
          exact inductionHypothesis sound renamed apart doneFlat flat.tail
            allOrNone
      | some address =>
          have asks :
              renamingOf entry =
                some ⟨address, entry.oldPath, entry.newPath⟩ := by
            simp [renamingOf, home]
          have request := flat.renameRequest home
          simp only [List.filterMap_cons, asks] at apart ⊢
          simp only [StorageAnswers.renamesAllOrNone, home, request, StorageAnswers.after]
            at allOrNone
          simp only [renameOnStorage, home, request, bind_apply, sendAndWait,
            modifyGet_apply]
          obtain ⟨afterSound, ended⟩ := servers.rename sound apart.possible
          by_cases refused :
              servers.refusesRename address entry.oldPath entry.newPath
                world = true
          · rw [if_pos refused] at ended allOrNone
            obtain ⟨failure, isFailure⟩ :=
              Option.isSome_iff_exists.mp ended.1
            obtain ⟨final, rolledBack, stillSound, isOriginal⟩ :=
              @rollbackRenames_restores _ servers original done ns _
                afterSound (ended.2.symm ▸ renamed) doneFlat allOrNone
            refine Or.inr ⟨failure, final, ?_, stillSound, isOriginal⟩
            simp only [isFailure, bind_apply, rolledBack, throw_apply]
          · rw [if_neg refused] at ended allOrNone
            simp only [ended.1, renameFailure_ok]
            have renamedMore :
                RenamedTo original (entry :: done)
                  (servers.held
                    (servers.backend address
                      (ssRenameMessage entry.oldPath entry.newPath)
                      world).2) := by
              rw [ended.2]
              exact renamed.cons home apart.possible
            have stillApart := apart.tail
            rw [← ended.2] at stillApart
            have flatMore : FlatNames (entry :: done) := by
              intro other member
              rcases List.mem_cons.mp member with rfl | earlier
              · exact flat other (by simp)
              · exact doneFlat other earlier
            have later := inductionHypothesis afterSound renamedMore
              stillApart flatMore flat.tail allOrNone
            rw [ended.2] at later
            exact later

end Renaming

end FileServers

end DistributedDocs
