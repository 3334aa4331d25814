import DistributedDocs.AccessRequests
import DistributedDocs.FileServers

namespace DistributedDocs

/-!
# Commands that keep registry and storage in agreement

For any storage servers that keep to their answers, each of `CREATE`,
`CREATEFOLDER`, `DELETE`, `MOVE` and `COPY` leaves an agreeing state, if a
`DELETE` is not refused after it has deleted a file and a `MOVE` that is
refused can take its renames back.
-/

/-! ## The names after a change of the registry -/

section Names

variable {before after : NameServer}

/-- One entry more, and the names it adds. -/
theorem homedName_append
    (connections : connectionsOf after = connectionsOf before)
    {file : FileMetadata}
    (files : after.files = before.files ++ [file])
    (address : Nat)
    (name : CString) :
    HomedName after address name ↔
      HomedName before address name ∨
        file.isDirectory = false ∧ file.filename = name ∧
          (homeOf file before).map StorageServerInfo.address =
            some address := by
  simp only [HomedName, files, List.mem_append, List.mem_singleton,
    homeAddress_congr connections]
  constructor
  · rintro ⟨other, present | rfl, isHomed⟩
    · exact Or.inl ⟨other, present, isHomed⟩
    · exact Or.inr isHomed
  · rintro (⟨other, present, isHomed⟩ | isHomed)
    · exact ⟨other, Or.inl present, isHomed⟩
    · exact ⟨file, Or.inr rfl, isHomed⟩

/-- A file with the endpoint of a connected server is homed on it. -/
theorem homeAddress_of_endpoint
    (sound : ServersSound before.storageServers)
    {ss : StorageServerInfo}
    (member : ss ∈ before.storageServers)
    (connected : ss.IsConnected)
    {file : FileMetadata}
    (sameIp : file.ssIp = ss.clientIp)
    (samePort : file.ssPort = ss.clientPort) :
    (homeOf file before).map StorageServerInfo.address =
      some ss.address := by
  obtain ⟨isAlive, hasSocket⟩ := connected
  cases isHome : homeOf file before with
  | none =>
      have refused := List.find?_eq_none.mp isHome ss member
      simp [isAlive, hasSocket, sameIp, samePort, strncmpEq] at refused
  | some home =>
      obtain ⟨homeMember, homeAlive, homeIp, homePort⟩ := homeOf_some isHome
      rw [sameIp] at homeIp
      have itself : strncmpEq ss.clientIp ss.clientIp maxIpLength = true := by
        simp [strncmpEq]
      rw [Option.map_some, Option.some.injEq]
      exact sound.endpoints home homeMember ss member homeAlive isAlive
        (clientIp_eq_of_strncmpEq homeIp itself)
        (homePort.symm.trans samePort)

end Names

/-- A file of the plan is to be deleted where it is homed. -/
theorem PlannedDelete.home_iff
    {ns : NameServer}
    {username : CString}
    {file : FileMetadata}
    {entry : DeletePlanEntry}
    (planned : PlannedDelete ns username file entry)
    {address : Nat} :
    entry.ss = some address ↔
      file.isDirectory = false ∧
        (homeOf file ns).map StorageServerInfo.address = some address := by
  cases folder : file.isDirectory with
  | true =>
      simp [planned.folder folder]
  | false =>
      obtain ⟨ss, isHome, isServer⟩ := planned.home folder
      simp [isHome, isServer]

/-- After a whole move the storage servers hold what is homed on them. -/
theorem MovedTree.holdsHomed
    {Document : Type}
    {now : Int}
    {username : CString}
    {source : FileMetadata}
    {destFolder : CString}
    {before after : NsState (DocumentStore Document)}
    (moved : MovedTree now username source destFolder before after)
    (registry : Registry before.ns)
    (connections : connectionsOf after.ns = connectionsOf before.ns)
    (holds : HoldsHomed before) :
    HoldsHomed after := by
  -- an entry after the move stands where one of before did
  have stands :
      ∀ file,
        (if GoesAlong source file.filename then
            renamedMetadata now username
              (nameAfterMove source destFolder file.filename) file
          else file).isDirectory = file.isDirectory ∧
        homeOf
            (if GoesAlong source file.filename then
              renamedMetadata now username
                (nameAfterMove source destFolder file.filename) file
            else file) after.ns =
          homeOf file after.ns := by
    intro file
    split <;> exact ⟨rfl, rfl⟩
  have names :
      ∀ file ∈ before.ns.files,
        (if GoesAlong source file.filename then
            renamedMetadata now username
              (nameAfterMove source destFolder file.filename) file
          else file).filename =
          nameAfterMove source destFolder file.filename := by
    have both := moved.names
    rw [moved.entries, List.map_map] at both
    exact List.map_inj_left.mp both
  intro address name
  constructor
  · intro isHeld
    have isName : name ∈ after.ns.files.map FileMetadata.filename := by
      by_contra notName
      rw [moved.nothingElse address name notName] at isHeld
      cases isHeld
    rw [moved.names] at isName
    obtain ⟨file, present, rfl⟩ := List.mem_map.mp isName
    rw [moved.documents address file present, holds] at isHeld
    obtain ⟨other, otherPresent, notFolder, sameName, homed⟩ := isHeld
    obtain rfl := eq_of_filename registry.coherent.names_nodup otherPresent
      present sameName
    refine ⟨_, moved.entries ▸ List.mem_map_of_mem present,
      (stands other).1.trans notFolder, names other present, ?_⟩
    rw [(stands other).2, homeAddress_congr connections, homed]
  · rintro ⟨file, present, notFolder, named, homed⟩
    rw [moved.entries] at present
    obtain ⟨former, formerPresent, rfl⟩ := List.mem_map.mp present
    rw [names former formerPresent] at named
    rw [(stands former).2, homeAddress_congr connections] at homed
    rw [← named, moved.documents address former formerPresent, holds]
    exact ⟨former, formerPresent, (stands former).1.symm.trans notFolder, rfl,
      homed⟩

namespace FileServers

variable
  {World : Type}
  {servers : FileServers World}

/-- A sound registry and sound storage servers that agree. -/
structure InAgreement
    (servers : FileServers World)
    (state : NsState World) : Prop where
  registry : Registry state.ns
  serversSound : ServersSound state.ns.storageServers
  serves :
    ∀ ss ∈ state.ns.storageServers, ss.IsConnected →
      servers.Serves ss.address
  sound : servers.Sound state.world
  agrees : servers.Agrees state

theorem agrees_iff (state : NsState World) :
    servers.Agrees state ↔
      ∀ address name,
        (servers.held state.world address name).isSome = true ↔
          HomedName state.ns address name :=
  Iff.rfl

namespace InAgreement

variable
  {start final looked : NsState World}
  {now : Int}
  {username : CString}

/-- The connections stay, and what is held is what is homed. -/
theorem to_agreeing
    (agreement : servers.InAgreement start)
    (registry : Registry final.ns)
    (connections : connectionsOf final.ns = connectionsOf start.ns)
    (sound : servers.Sound final.world)
    (agrees : servers.Agrees final) :
    servers.InAgreement final where
  registry := registry
  serversSound := agreement.serversSound.of_connections connections
  serves ss member connected := by
    obtain ⟨former, formerMember, same⟩ :=
      exists_of_connections connections member
    simp only [endpointOf, Prod.mk.injEq] at same
    obtain ⟨address, _, _, sockfd, isAlive⟩ := same
    rw [← address]
    exact agreement.serves former formerMember
      ⟨isAlive.trans connected.1, sockfd.symm ▸ connected.2⟩
  sound := sound
  agrees := agrees

/-- Neither the places nor the names held have changed. -/
theorem of_kept
    (agreement : servers.InAgreement start)
    (registry : Registry final.ns)
    (connections : connectionsOf final.ns = connectionsOf start.ns)
    (places : final.ns.files.map placeOf = start.ns.files.map placeOf)
    (sound : servers.Sound final.world)
    (held : servers.held final.world = servers.held start.world) :
    servers.InAgreement final := by
  refine agreement.to_agreeing registry connections sound ?_
  rw [agrees_iff, held]
  intro address name
  exact (agreement.agrees address name).trans
    (homedName_congr connections places address name).symm

theorem of_looked
    (agreement : servers.InAgreement start)
    (known : Looked start looked) :
    servers.InAgreement looked :=
  agreement.of_kept (agreement.registry.looked known)
    (connectionsOf_of_servers known.onlyCache.storageServers)
    (by rw [known.onlyCache.files])
    (known.sameWorld ▸ agreement.sound) (by rw [known.sameWorld])

/-- A name without an entry is held nowhere. -/
theorem held_eq_none
    (agreement : servers.InAgreement start)
    {filename : CString}
    (fresh : plainScan start.ns.files filename = none)
    (address : Nat) :
    servers.held start.world address filename = none := by
  rw [← Option.not_isSome_iff_eq_none, (agrees_iff start).mp agreement.agrees]
  rintro ⟨file, present, _, named, _⟩
  exact plainScan_eq_none_iff.mp fresh file present named

/-! ## Creating -/

theorem connectionsOf_registered
    (known : Looked start looked)
    (filename : CString)
    (target : StorageServerInfo) :
    connectionsOf (registered now username filename target looked).ns =
      connectionsOf start.ns := by
  have same :
      connectionsOf (registered now username filename target looked).ns =
        connectionsOf (nsSelectStorageServerBalanced looked.ns).2 :=
    connectionsOf_of_servers (storageServers_registerFile _ _ _)
  rw [same, connectionsOf_select]
  exact connectionsOf_of_servers known.onlyCache.storageServers

/-- The chosen server is one of the servers of the registry. -/
theorem target_known
    (known : Looked start looked)
    {target : StorageServerInfo}
    (selected : (nsSelectStorageServerBalanced looked.ns).1 = some target) :
    target.isAlive = true ∧
      ∃ ss ∈ start.ns.storageServers, endpointOf ss = endpointOf target := by
  obtain ⟨member, isAlive⟩ := mem_of_selected selected
  have connections :
      connectionsOf (nsSelectStorageServerBalanced looked.ns).2 =
        connectionsOf start.ns :=
    (connectionsOf_select looked.ns).trans
      (connectionsOf_of_servers known.onlyCache.storageServers)
  exact ⟨isAlive, exists_of_connections connections member⟩

/-- The storage server makes the file, or it has none of the name. -/
theorem createOnStorage_ends
    (agreement : servers.InAgreement start)
    (known : Looked start looked)
    {filename : CString}
    (fresh : plainScan start.ns.files filename = none)
    {target : StorageServerInfo}
    (selected : (nsSelectStorageServerBalanced looked.ns).1 = some target)
    {failure : Option Refusal}
    {answered : NsState World}
    (asked :
      createOnStorage servers.backend target username filename
          (registered now username filename target looked) =
        .ok failure answered) :
    servers.Sound answered.world ∧
      (failure.isSome = true ∧
          servers.held answered.world = servers.held start.world ∨
        failure = none ∧ 0 ≤ target.sockfd ∧
          servers.held answered.world =
            withName target.address filename
              (servers.held start.world)) := by
  have sameWorld :
      (registered now username filename target looked).world =
        start.world :=
    known.sameWorld
  unfold createOnStorage at asked
  by_cases noSocket : target.sockfd < 0
  · rw [if_pos noSocket] at asked
    cases asked
    rw [sameWorld]
    exact ⟨agreement.sound, Or.inl ⟨rfl, rfl⟩⟩
  · rw [if_neg noSocket] at asked
    have hasSocket : 0 ≤ target.sockfd := not_lt.mp noSocket
    obtain ⟨isAlive, ss, member, same⟩ := target_known known selected
    simp only [endpointOf, Prod.mk.injEq] at same
    obtain ⟨address, _, _, sockfd, alive⟩ := same
    have serves : servers.Serves target.address :=
      address ▸ agreement.serves ss member
        ⟨alive.trans isAlive, sockfd.symm ▸ hasSocket⟩
    obtain ⟨afterSound, ended⟩ :=
      servers.create username serves agreement.sound
        (agreement.held_eq_none fresh target.address)
    simp only [sendAndWait, bind_apply, modifyGet_apply, pure_apply,
      sameWorld] at asked
    cases asked
    refine ⟨afterSound, ?_⟩
    rcases ended with ⟨refused, kept⟩ | ⟨answer, grown⟩
    · exact Or.inl ⟨answerFailure_of_isRefusal refused, kept⟩
    · have other : str "OK_CREATE" ≠ str "ERR" := by decide
      refine Or.inr ⟨?_, hasSocket, grown⟩
      rw [answer, answerFailure, if_neg other, if_pos rfl]

/-- A `CREATE` that succeeds adds the same name on both sides. -/
theorem created
    (agreement : servers.InAgreement start)
    {filename : CString}
    {target : StorageServerInfo}
    {answered : NsState World}
    (known : Looked start looked)
    (valid : validateFilename filename = true)
    (fresh : plainScan start.ns.files filename = none)
    (selected : (nsSelectStorageServerBalanced looked.ns).1 = some target)
    (asked :
      createOnStorage servers.backend target username filename
          (registered now username filename target looked) =
        .ok none answered) :
    servers.InAgreement
      (answered.onRegistry (changeServer target.address fun ss =>
        { ss with totalFiles := ss.totalFiles + 1 })) := by
  have sameNs := (onlyAsks_createOnStorage _ _).ns_eq asked
  have registry : Registry answered.ns :=
    (agreement.registry.registered now username target known valid fresh).asked
      (onlyAsks_createOnStorage _ _) asked
  obtain ⟨sound, ended⟩ :=
    agreement.createOnStorage_ends known fresh selected asked
  obtain ⟨_, hasSocket, grown⟩ := ended.resolve_left nofun
  have counted :
      ∀ ss : StorageServerInfo,
        endpointOf { ss with totalFiles := ss.totalFiles + 1 } =
          endpointOf ss :=
    fun _ => rfl
  have connections :
      connectionsOf
          (changeServer target.address
            (fun ss => { ss with totalFiles := ss.totalFiles + 1 })
            answered.ns) =
        connectionsOf start.ns := by
    rw [connectionsOf_changeServer counted, sameNs]
    exact connectionsOf_registered known filename target
  refine agreement.to_agreeing (registry.changeServer _ _) connections sound ?_
  obtain ⟨isAlive, ss, member, same⟩ := target_known known selected
  simp only [endpointOf, Prod.mk.injEq] at same
  obtain ⟨address, ip, port, sockfd, alive⟩ := same
  have homed :
      ∀ document,
        (homeOf
            { newMetadata now username filename target with
              document := document }
            start.ns).map StorageServerInfo.address =
          some target.address := by
    intro document
    rw [← address]
    refine homeAddress_of_endpoint agreement.serversSound member
      ⟨alive.trans isAlive, sockfd.symm ▸ hasSocket⟩ ?_ port.symm
    exact (safeStrcpy_of_short target.clientIp_short).trans ip.symm
  have named : (newMetadata now username filename target).filename = filename :=
    safeStrcpy_of_short (length_of_validateFilename valid)
  rw [agrees_iff]
  intro server name
  have files :
      (changeServer target.address
          (fun ss => { ss with totalFiles := ss.totalFiles + 1 })
          answered.ns).files =
        start.ns.files ++
          [{ newMetadata now username filename target with
              document := start.ns.nextDocument }] :=
    (congrArg NameServer.files sameNs).trans
      (files_registered now username filename target known)
  refine Iff.trans ?_ (homedName_append connections files server name).symm
  have agrees := (agrees_iff start).mp agreement.agrees server name
  rw [homed, NsState.onRegistry, grown, withName, Option.some.injEq]
  by_cases isNew : server = target.address ∧ name = filename
  · obtain ⟨rfl, rfl⟩ := isNew
    rw [if_pos ⟨rfl, rfl⟩]
    exact ⟨fun _ => Or.inr ⟨rfl, named, rfl⟩, fun _ => rfl⟩
  · rw [if_neg isNew, agrees]
    refine ⟨Or.inl, ?_⟩
    rintro (isHomed | ⟨_, isName, isServer⟩)
    · exact isHomed
    · exact absurd ⟨isServer.symm, isName.symm.trans named⟩ isNew

/-- A `CREATE` that is refused leaves no entry and no file. -/
theorem createRefused
    (agreement : servers.InAgreement start)
    {filename : CString}
    {target : StorageServerInfo}
    {refusal : Refusal}
    {answered : NsState World}
    (known : Looked start looked)
    (valid : validateFilename filename = true)
    (fresh : plainScan start.ns.files filename = none)
    (selected : (nsSelectStorageServerBalanced looked.ns).1 = some target)
    (asked :
      createOnStorage servers.backend target username filename
          (registered now username filename target looked) =
        .ok (some refusal) answered) :
    servers.InAgreement
      (answered.onRegistry fun ns =>
        (removeFileMetadataLocked filename ns).2) := by
  have sameNs := (onlyAsks_createOnStorage _ _).ns_eq asked
  have registry : Registry answered.ns :=
    (agreement.registry.registered now username target known valid fresh).asked
      (onlyAsks_createOnStorage _ _) asked
  obtain ⟨sound, ended⟩ :=
    agreement.createOnStorage_ends known fresh selected asked
  have kept : servers.held answered.world = servers.held start.world := by
    rcases ended with ⟨_, kept⟩ | ⟨accepted, _⟩
    · exact kept
    · cases accepted
  have connections :
      connectionsOf (removeFileMetadataLocked filename answered.ns).2 =
        connectionsOf start.ns := by
    rw [connectionsOf_of_servers (storageServers_remove filename answered.ns),
      sameNs]
    exact connectionsOf_registered known filename target
  have files :
      (removeFileMetadataLocked filename answered.ns).2.files =
        start.ns.files := by
    rw [sameNs]
    exact files_createRefused now username target agreement.registry known
      valid fresh
  exact agreement.of_kept (registry.removeFileMetadataLocked filename)
    connections (congrArg (List.map placeOf) files) sound kept

theorem create
    (agreement : servers.InAgreement start)
    (msg : List CString) :
    servers.InAgreement
      (finalState (handleCreate servers.backend now username msg start)) := by
  have effect :=
    effect_of_command servers.backend now username
      agreement.registry.coherent (.create msg)
  change CommandEffect servers.backend now username start (.create msg)
    (finalState (handleCreate servers.backend now username msg start)) at effect
  have registry := agreement.registry.effect effect
  generalize finalState (handleCreate servers.backend now username msg start) =
    final at effect registry
  cases effect with
  | looked known =>
      exact agreement.of_looked known
  | unplaced known =>
      have chosen := agreement.of_looked known
      exact chosen.of_kept registry (connectionsOf_select _)
        (congrArg (List.map placeOf) (files_select _)) chosen.sound rfl
  | createRefused known valid room fresh selected asked =>
      exact agreement.createRefused known valid fresh selected asked
  | created known valid room fresh selected asked =>
      exact agreement.created known valid fresh selected asked

/-- A folder is an entry that no storage server knows. -/
theorem createFolder
    (agreement : servers.InAgreement start)
    (msg : List CString) :
    servers.InAgreement
      (finalState (@handleCreateFolder World now username msg start)) := by
  have effect :=
    effect_of_command servers.backend now username
      agreement.registry.coherent (.createFolder msg)
  change CommandEffect servers.backend now username start (.createFolder msg)
    (finalState (@handleCreateFolder World now username msg start)) at effect
  have registry := agreement.registry.effect effect
  generalize finalState (@handleCreateFolder World now username msg start) =
    final at effect registry
  cases effect with
  | looked known =>
      exact agreement.of_looked known
  | @folder _ path _ looked known valid room fresh =>
      have lookedAgreement := agreement.of_looked known
      have connections :
          connectionsOf
              (registerFile path (newFolder now username path) looked.ns) =
            connectionsOf looked.ns :=
        connectionsOf_of_servers (storageServers_registerFile _ _ _)
      refine lookedAgreement.to_agreeing registry connections
        lookedAgreement.sound ?_
      rw [agrees_iff]
      intro address name
      have files := files_registerFile path (newFolder now username path)
        looked.ns
      refine Iff.trans ?_
        (homedName_append connections files address name).symm
      refine (lookedAgreement.agrees address name).trans
        ⟨Or.inl, fun isHomed => ?_⟩
      rcases isHomed with isHomed | ⟨notFolder, _⟩
      · exact isHomed
      · cases notFolder

/-- A `COPY` changes the contents of files only. -/
theorem copy
    (agreement : servers.InAgreement start)
    (msg : List CString) :
    servers.InAgreement
      (finalState (handleCopy servers.backend now username msg start)) := by
  have effect :=
    effect_of_command servers.backend now username
      agreement.registry.coherent (.copy msg)
  change CommandEffect servers.backend now username start (.copy msg)
    (finalState (handleCopy servers.backend now username msg start)) at effect
  have registry := agreement.registry.effect effect
  generalize finalState (handleCopy servers.backend now username msg start) =
    final at effect registry
  have answeredAgreement :
      ∀ {answer : SsAnswer}
        {destSs : StorageServerInfo}
        {arguments : List CString}
        {looked answered : NsState World},
        Looked start looked →
          sendAndWait servers.backend destSs.address
              (str "SS_COPY" :: arguments) looked =
            .ok answer answered →
            servers.InAgreement answered := by
    intro answer destSs arguments looked answered known asked
    have lookedAgreement := agreement.of_looked known
    obtain ⟨sound, kept⟩ :=
      servers.copy destSs.address arguments lookedAgreement.sound
    cases asked
    exact lookedAgreement.of_kept lookedAgreement.registry rfl rfl sound kept
  cases effect with
  | looked known =>
      exact agreement.of_looked known
  | copyAnswered known destination home asked =>
      exact answeredAgreement known asked
  | @copied _ _ _ _ _ _ srcIdx _ _ _ _ _ _ answered known source destination
      home asked =>
      have copiedAgreement := answeredAgreement known asked
      have stays :
          ∀ file : FileMetadata,
            placeOf (accessedMetadata now username file) = placeOf file :=
        fun _ => rfl
      exact copiedAgreement.of_kept registry rfl
        (map_modify_same stays srcIdx answered.ns.files)
        copiedAgreement.sound rfl

/-! ## Deleting -/

/-- What a plan of `DELETE` names is held. -/
theorem planHeld
    (agreement : servers.InAgreement start)
    {targetPath : CString}
    {target : FileMetadata}
    {plan : List DeletePlanEntry}
    (planned : PlannedDeletes start.ns username targetPath target plan) :
    servers.PlanHeld plan start.world where
  held entry member address home := by
    obtain ⟨file, taken, plannedEntry⟩ :=
      exists_of_forall₂ planned.entries member
    obtain ⟨notFolder, homed⟩ := plannedEntry.home_iff.mp home
    exact (agreement.agrees address entry.path).mpr
      ⟨file, (List.mem_filter.mp taken).1, notFolder,
        plannedEntry.path.symm, homed⟩
  distinct := by
    rw [planned.paths]
    exact (List.filter_sublist.map _).nodup
      agreement.registry.coherent.names_nodup

/-- The entries of the plan are gone on both sides. -/
theorem deleted
    (agreement : servers.InAgreement start)
    (known : Looked start looked)
    {targetPath : CString}
    {target : FileMetadata}
    {plan : List DeletePlanEntry}
    (planned : PlannedDeletes start.ns username targetPath target plan)
    {world : World}
    (sound : servers.Sound world)
    (left :
      servers.held world = heldWithout (servers.held start.world) plan) :
    servers.InAgreement ⟨applyDelete plan looked.ns, world⟩ := by
  obtain ⟨registry, members⟩ :=
    (agreement.registry.looked known).applyDelete plan
  rw [known.onlyCache.files] at members
  have connections :
      connectionsOf (applyDelete plan looked.ns) = connectionsOf start.ns :=
    (connectionsOf_applyDelete plan looked.ns).trans
      (connectionsOf_of_servers known.onlyCache.storageServers)
  refine agreement.to_agreeing registry connections sound ?_
  rw [agrees_iff]
  intro address name
  rw [left, heldWithout_isSome_iff, (agrees_iff start).mp agreement.agrees]
  constructor
  · rintro ⟨⟨file, present, notFolder, named, homed⟩, spared⟩
    refine ⟨file, (members file).mpr ⟨present, fun entry member same => ?_⟩,
      notFolder, named, (homeAddress_congr connections file).trans homed⟩
    obtain ⟨other, taken, plannedEntry⟩ :=
      exists_of_forall₂ planned.entries member
    obtain rfl : other = file :=
      eq_of_filename agreement.registry.coherent.names_nodup
        (List.mem_filter.mp taken).1 present
        (plannedEntry.path.symm.trans same.symm)
    exact spared entry member (plannedEntry.home_iff.mpr ⟨notFolder, homed⟩)
      (same.symm.trans named)
  · rintro ⟨file, present, notFolder, named, homed⟩
    obtain ⟨former, spared⟩ := (members file).mp present
    refine ⟨⟨file, former, notFolder, named,
      (homeAddress_congr connections file).symm.trans homed⟩,
      fun entry member _ same => spared entry member ?_⟩
    rw [named, same]

/-- Carrying out a plan of `DELETE`, if it is not refused half-way. -/
theorem deletePlanned
    (agreement : servers.InAgreement start)
    (known : Looked start looked)
    {targetPath : CString}
    {target : FileMetadata}
    {plan : List DeletePlanEntry}
    (planned : PlannedDeletes start.ns username targetPath target plan)
    (allOrNone : servers.deletesAllOrNone plan looked.world = true) :
    match deleteOnStorage servers.backend plan looked with
    | .ok _ emptied =>
        servers.InAgreement (emptied.onRegistry (applyDelete plan))
    | .error _ refused =>
        servers.InAgreement refused := by
  have lookedAgreement := agreement.of_looked known
  have planHeld := agreement.planHeld planned
  have same : looked.world = start.world := known.sameWorld
  rcases @deleteOnStorage_allOrNone _ servers plan looked.ns looked.world
    lookedAgreement.sound (same.symm ▸ planHeld) allOrNone with
      ⟨final, deletes, sound, left⟩ | ⟨refusal, final, deletes, sound, kept⟩
  · rw [show deleteOnStorage servers.backend plan looked = _ from deletes]
    rw [same] at left
    exact agreement.deleted known planned sound left
  · rw [show deleteOnStorage servers.backend plan looked = _ from deletes]
    exact lookedAgreement.of_kept lookedAgreement.registry rfl rfl sound kept

/-- A `DELETE` that is not refused half-way. -/
theorem delete
    (agreement : servers.InAgreement start)
    (msg : List CString)
    (spared : servers.sparesDelete username msg start = true) :
    servers.InAgreement
      (finalState (handleDelete servers.backend username msg start)) := by
  unfold handleDelete
  split
  · next type targetPath rest =>
    by_cases valid : nsValidateLogicalPath targetPath = true
    · by_cases identified : username = []
      · simp only [nsEnsure, valid, identified, ne_eq, not_true_eq_false,
          decide_false, Bool.false_eq_true, ↓reduceIte, bind_apply,
          pure_apply, nsRefuse, throw_apply]
        exact agreement
      · have finds :=
          @finds_planDelete World start username targetPath start
            (Looked.refl agreement.registry.coherent)
        simp only [StorageAnswers.sparesDelete, valid, identified, ne_eq, not_false_eq_true,
          decide_true, Bool.and_self, ↓reduceIte] at spared
        simp only [nsEnsure, valid, identified, ne_eq, not_false_eq_true,
          decide_true, ↓reduceIte, bind_apply, pure_apply]
        cases planned : planDelete username targetPath start with
        | error refusal looked =>
            rw [planned] at finds
            exact agreement.of_looked finds
        | ok plan looked =>
            rw [planned] at finds
            simp only [planned] at spared
            obtain ⟨⟨target, isPlan⟩, known⟩ := finds
            have ended := agreement.deletePlanned known isPlan spared
            cases deletes : deleteOnStorage servers.backend plan looked with
            | error refusal refused =>
                rw [deletes] at ended
                simp only [deletes]
                exact ended
            | ok _ emptied =>
                rw [deletes] at ended
                simp only [deletes, changeNs, modify_apply]
                split <;> exact ended
    · simp only [nsEnsure, valid, Bool.false_eq_true, ↓reduceIte, bind_apply,
        nsRefuse, throw_apply]
      exact agreement
  · exact agreement

/-! ## Moving -/

/-- The flat names in a plan of `MOVE` are those of its paths. -/
theorem flatNames
    {srcPath destination baseName finalRoot : CString}
    {source : FileMetadata}
    {plan : List MovePlanEntry}
    (planned :
      PlannedMoves start.ns username srcPath destination source baseName
        finalRoot plan) :
    FlatNames plan := by
  intro entry member address home
  obtain ⟨file, present, _, plannedEntry⟩ := planned.exists_file member
  have notFolder : file.isDirectory = false := by
    rw [← Bool.not_eq_true]
    intro folder
    rw [plannedEntry.folder folder] at home
    cases home
  obtain ⟨oldFlat, newFlat⟩ := plannedEntry.flat notFolder
  rw [flattenLogicalPath_eq file.filename_short, Option.some.injEq] at oldFlat
  rw [flattenLogicalPath_eq (planned.paths member).1, Option.some.injEq]
    at newFlat
  rw [plannedEntry.oldPath]
  exact ⟨oldFlat.symm, newFlat.symm⟩

/-- The entries of the plan are moved on both sides. -/
theorem moved
    (agreement : servers.InAgreement start)
    (known : Looked start looked)
    {srcPath destFolder destination baseName finalRoot : CString}
    {source : FileMetadata}
    {plan : List MovePlanEntry}
    (normalized : nsNormalizeDestination destFolder = some destination)
    (planned :
      PlannedMoves start.ns username srcPath destination source baseName
        finalRoot plan)
    {world : World}
    (sound : servers.Sound world)
    (renamed :
      servers.held world =
        Renaming.applyAll (plan.filterMap renamingOf)
          (servers.held start.world)) :
    servers.InAgreement
      ⟨applyMove now username plan looked.ns, world⟩ := by
  let startDocuments : DocumentStore Unit :=
    ⟨servers.held start.world, none⟩
  have knownDocuments :
      Looked ⟨start.ns, startDocuments⟩ ⟨looked.ns, startDocuments⟩ :=
    ⟨known.coherent, known.onlyCache, rfl⟩
  have tree :=
    @movedTree_of_planned Unit now username srcPath destFolder destination
      baseName finalRoot source plan ⟨start.ns, startDocuments⟩
      ⟨looked.ns, startDocuments⟩ planned agreement.registry.coherent
      agreement.agrees knownDocuments normalized none
  have connections :
      connectionsOf (applyMove now username plan looked.ns) =
        connectionsOf start.ns :=
    (connectionsOf_of_servers (storageServers_applyMove _ _ _ _)).trans
      (connectionsOf_of_servers known.onlyCache.storageServers)
  have registry :=
    (agreement.registry.looked known).applyMove now username
      (planned.of_looked known)
  refine agreement.to_agreeing registry connections sound ?_
  have holds :=
    tree.holdsHomed agreement.registry connections agreement.agrees
  rw [Agrees, renamed]
  exact holds

/-- Carrying out a plan of `MOVE`, if it can be taken back. -/
theorem movePlanned
    (agreement : servers.InAgreement start)
    (known : Looked start looked)
    {srcPath destFolder destination baseName finalRoot : CString}
    {source : FileMetadata}
    {plan : List MovePlanEntry}
    (normalized : nsNormalizeDestination destFolder = some destination)
    (planned :
      PlannedMoves start.ns username srcPath destination source baseName
        finalRoot plan)
    (allOrNone :
      servers.renamesAllOrNone [] plan looked.world = true) :
    match renameOnStorage servers.backend [] plan looked with
    | .ok _ renamed =>
        servers.InAgreement
          (renamed.onRegistry (applyMove now username plan))
    | .error _ refused =>
        servers.InAgreement refused := by
  have lookedAgreement := agreement.of_looked known
  have same : looked.world = start.world := known.sameWorld
  have apart :
      Renaming.Apart (servers.held looked.world)
        (plan.filterMap renamingOf) := by
    rw [same]
    exact @PlannedMoves.apart Unit username srcPath destination baseName
      finalRoot source plan ⟨start.ns, ⟨servers.held start.world, none⟩⟩
      planned agreement.registry.coherent agreement.agrees
  have noneDone : FlatNames [] := nofun
  rcases @renameOnStorage_allOrNone _ servers (servers.held looked.world) []
    plan looked.ns looked.world lookedAgreement.sound .nil apart noneDone
    (flatNames planned) allOrNone with
      ⟨final, renames, sound, renamed⟩ | ⟨refusal, final, renames, sound, kept⟩
  · rw [show renameOnStorage servers.backend [] plan looked = _ from renames]
    rw [same] at renamed
    exact agreement.moved known normalized planned sound renamed
  · rw [show renameOnStorage servers.backend [] plan looked = _ from renames]
    exact lookedAgreement.of_kept lookedAgreement.registry rfl rfl sound kept

/-- A `MOVE` that can be taken back if it is refused half-way. -/
theorem move
    (agreement : servers.InAgreement start)
    (msg : List CString)
    (spared : servers.sparesMove username msg start = true) :
    servers.InAgreement
      (finalState (handleMove servers.backend now username msg start)) := by
  unfold handleMove
  split
  · next type srcPath destFolder rest =>
    by_cases valid : nsValidateLogicalPath srcPath = true
    · by_cases identified : username = []
      · simp only [nsEnsure, valid, identified, ne_eq, not_true_eq_false,
          decide_false, Bool.false_eq_true, ↓reduceIte, bind_apply,
          pure_apply, nsRefuse, throw_apply]
        exact agreement
      · simp only [StorageAnswers.sparesMove, valid, identified, ne_eq, not_false_eq_true,
          decide_true, Bool.and_self, ↓reduceIte] at spared
        simp only [nsEnsure, valid, identified, ne_eq, not_false_eq_true,
          decide_true, ↓reduceIte, bind_apply, pure_apply]
        cases normalized : nsNormalizeDestination destFolder with
        | none =>
            exact agreement
        | some destination =>
            have finds :=
              @finds_planMove World start username srcPath destination start
                (Looked.refl agreement.registry.coherent)
            simp only [normalized] at spared
            simp only [bind_apply]
            cases plans :
              planMove username srcPath destination start with
            | error refusal looked =>
                rw [plans] at finds
                exact agreement.of_looked finds
            | ok plan looked =>
                rw [plans] at finds
                simp only [plans] at spared
                obtain ⟨⟨_, source, baseName, finalRoot, planned⟩, known⟩ :=
                  finds
                have ended :=
                  @movePlanned _ _ _ _ now _ agreement known _ _ _ _ _ _ _
                    normalized planned spared
                cases renames :
                  renameOnStorage servers.backend [] plan looked with
                | error refusal refused =>
                    rw [renames] at ended
                    simp only [renames]
                    exact ended
                | ok _ renamed =>
                    rw [renames] at ended
                    simp only [renames, changeNs, modify_apply]
                    exact ended
    · simp only [nsEnsure, valid, Bool.false_eq_true, ↓reduceIte, bind_apply,
        nsRefuse, throw_apply]
      exact agreement
  · exact agreement

end InAgreement

/-- Registry and storage servers agree after every spared command. -/
theorem InAgreement.command
    {start : NsState World}
    (agreement : servers.InAgreement start)
    (now : Int)
    (username : CString)
    (command : FileCommand)
    (spared : servers.spares username command start = true) :
    servers.InAgreement
      (nsStep servers.backend start
        (.command now username command.toCommand)) := by
  cases command with
  | create msg => exact agreement.create msg
  | createFolder msg => exact agreement.createFolder msg
  | delete msg => exact agreement.delete msg spared
  | move msg => exact agreement.move msg spared
  | copy msg => exact agreement.copy msg

end FileServers

end DistributedDocs
