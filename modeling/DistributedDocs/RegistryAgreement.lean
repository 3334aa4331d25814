import DistributedDocs.FileAgreement

namespace DistributedDocs

/-!
# Registry and storage

The name server with its storage servers.  The requests of a command reach the
storage servers one after another; before each of them clients may have opened
and ended write sessions, undone, taken checkpoints or dropped connections on
any storage server.  Registry and storage agree on which files exist through
every run in which no `DELETE` is refused after it has deleted a file and every
`MOVE` that is refused can take its renames back.
-/

/-! ## The storage servers of a name server -/

/-- What happens on a storage server without the name server. -/
inductive Happening where
  | client
      (address : Nat)
      (event : SsEvent)
      (fromClient : event.command.sender ≠ .nameServer)
  | disk (address : Nat) (outcomes : List Outcome)

/-- The storage server a happening is about, after it. -/
def Happening.result (servers : Nat → StorageServer) :
    Happening → StorageServer
  | .client address event _ =>
      ssStep (servers address) event
  | .disk address outcomes =>
      let ss := servers address
      { ss with disk := { ss.disk with outcomes := outcomes } }

def Happening.address : Happening → Nat
  | .client address _ _ => address
  | .disk address _ => address

def happen
    (servers : Nat → StorageServer)
    (happening : Happening) : Nat → StorageServer :=
  Function.update servers happening.address (happening.result servers)

/-- What happens before a request arrives, and what it meets then. -/
structure Interval where
  happenings : List Happening
  now : Int
  peer : PeerSession

/-- The storage servers by address, and what will happen before each request. -/
structure Fleet where
  servers : Nat → StorageServer
  ahead : Nat → Interval

namespace Fleet

/-- The storage servers when the next request arrives. -/
def reached (fleet : Fleet) : Nat → StorageServer :=
  runFrom happen fleet.servers (fleet.ahead 0).happenings

/-- The answer to the next request, and the storage server after it. -/
def answer
    (fleet : Fleet)
    (address : Nat)
    (request : List CString) : SsAnswer × StorageServer :=
  answerRequest (fleet.ahead 0).now (fleet.ahead 0).peer request
    (fleet.reached address)

end Fleet

/-- The storage servers, as the name server sees them. -/
def fleetBackend : Backend Fleet :=
  fun address request fleet =>
    let answered := fleet.answer address request
    (answered.1,
      { servers := Function.update fleet.reached address answered.2
        ahead := fun later => fleet.ahead (later + 1) })

/-- Which requests are refused when they arrive. -/
def fleetAnswers : StorageAnswers Fleet where
  backend := fleetBackend
  refusesDelete address filename fleet :=
    refusesDelete (fleet.reached address) filename
  refusesRename address old new fleet :=
    refusesRename (fleet.reached address) old new

/-! ## They keep to their answers -/

/-- A client neither makes nor removes nor renames a record. -/
theorem keepsRecords_of_client
    {command : SsCommand}
    (fromClient : command.sender ≠ .nameServer) :
    command.changesRecords = false ∧
      ∀ old new, command ≠ .ssRename old new := by
  cases command with
  | createFile msg => exact absurd rfl fromClient
  | deleteFile msg => exact absurd rfl fromClient
  | ssRename old new => exact absurd rfl fromClient
  | ssCopy peer msg => exact absurd rfl fromClient
  | _ => exact ⟨rfl, nofun⟩

section Contract

variable (served : Nat → Bool)

/-- The names held at the served addresses. -/
def heldNames (servers : Nat → StorageServer) : HeldNames :=
  fun address name =>
    if served address && decide (name ∈ recordNames (servers address)) then
      some ()
    else
      none

/-- The storage servers at the served addresses are sound. -/
def NamesApartAt (servers : Nat → StorageServer) : Prop :=
  ∀ address, served address = true → NamesApart (servers address)

variable {served}

theorem heldNames_isSome_iff
    (servers : Nat → StorageServer)
    (address : Nat)
    (name : CString) :
    (heldNames served servers address name).isSome = true ↔
      served address = true ∧ name ∈ recordNames (servers address) := by
  unfold heldNames
  split
  · next isHeld => simpa using isHeld
  · next notHeld => simpa using notHeld

theorem NamesApartAt.update
    {servers : Nat → StorageServer}
    (apart : NamesApartAt served servers)
    {address : Nat}
    {ss : StorageServer}
    (here : served address = true → NamesApart ss) :
    NamesApartAt served (Function.update servers address ss) := by
  intro other isServed
  by_cases same : other = address
  · subst same
    rw [Function.update_self]
    exact here isServed
  · rw [Function.update_of_ne same]
    exact apart other isServed

/-- The names after one storage server has changed. -/
theorem heldNames_update
    (servers : Nat → StorageServer)
    (address : Nat)
    (ss : StorageServer) :
    heldNames served (Function.update servers address ss) =
      fun other name =>
        if other = address then
          heldNames served (fun _ => ss) other name
        else
          heldNames served servers other name := by
  funext other name
  by_cases same : other = address
  · subst same
    simp [heldNames]
  · simp [heldNames, same]

/-- Where the names of a storage server stay, nothing changes. -/
theorem heldNames_update_same
    {servers : Nat → StorageServer}
    {address : Nat}
    {ss : StorageServer}
    (same :
      served address = true →
        recordNames ss = recordNames (servers address)) :
    heldNames served (Function.update servers address ss) =
      heldNames served servers := by
  rw [heldNames_update]
  funext other name
  split
  · next here =>
    subst here
    unfold heldNames
    cases isServed : served other with
    | true => rw [same isServed]
    | false => rfl
  · rfl

/-- Nothing that happens without the name server changes a name. -/
theorem NamesApartAt.happen
    {servers : Nat → StorageServer}
    (apart : NamesApartAt served servers)
    (happening : Happening) :
    NamesApartAt served (DistributedDocs.happen servers happening) ∧
      heldNames served (DistributedDocs.happen servers happening) =
        heldNames served servers := by
  have kept :
      served happening.address = true →
        NamesApart (happening.result servers) ∧
          recordNames (happening.result servers) =
            recordNames (servers happening.address) := by
    intro isServed
    have ss := apart happening.address isServed
    cases happening with
    | client address event fromClient =>
        obtain ⟨keepsRecords, noRename⟩ := keepsRecords_of_client fromClient
        exact ss.step keepsRecords noRename
    | disk address outcomes =>
        exact ⟨ss.withOutcomes outcomes, rfl⟩
  exact ⟨apart.update fun isServed => (kept isServed).1,
    heldNames_update_same fun isServed => (kept isServed).2⟩

/-- The names when a request arrives are those of before. -/
theorem NamesApartAt.reached
    {fleet : Fleet}
    (apart : NamesApartAt served fleet.servers) :
    NamesApartAt served fleet.reached ∧
      heldNames served fleet.reached = heldNames served fleet.servers := by
  have preserved :
      ∀ (servers : Nat → StorageServer) (happening : Happening),
        (NamesApartAt served servers ∧
            heldNames served servers = heldNames served fleet.servers) →
          NamesApartAt served (DistributedDocs.happen servers happening) ∧
            heldNames served (DistributedDocs.happen servers happening) =
              heldNames served fleet.servers := by
    rintro servers happening ⟨stillApart, same⟩
    obtain ⟨later, kept⟩ := stillApart.happen happening
    exact ⟨later, kept.trans same⟩
  exact runFrom_invariant preserved ⟨apart, rfl⟩ _

/-- The names when a request to a served address has been answered. -/
theorem heldNames_answered_iff
    {fleet : Fleet}
    (apart : NamesApartAt served fleet.servers)
    {address : Nat}
    (isServed : served address = true)
    (request : List CString)
    (other : Nat)
    (name : CString) :
    (heldNames served (fleetBackend address request fleet).2.servers other
        name).isSome = true ↔
      if other = address then
        name ∈ recordNames (fleet.answer address request).2
      else
        (heldNames served fleet.servers other name).isSome = true := by
  rw [← apart.reached.2]
  change
    (heldNames served (Function.update fleet.reached address _) other
      name).isSome = true ↔ _
  rw [heldNames_update]
  simp only
  split
  · next here =>
    subst here
    rw [heldNames_isSome_iff]
    simp [isServed]
  · rfl

/-- What a served storage server holds when a request arrives. -/
theorem mem_reached_iff
    {fleet : Fleet}
    (apart : NamesApartAt served fleet.servers)
    {address : Nat}
    (isServed : served address = true)
    (name : CString) :
    name ∈ recordNames (fleet.reached address) ↔
      (heldNames served fleet.servers address name).isSome = true := by
  rw [← apart.reached.2, heldNames_isSome_iff]
  simp [isServed]

/-- The names when one that is held has been replaced. -/
theorem mem_renamed_iff
    {α : Type*}
    [DecidableEq α]
    {names : List α}
    {old new : α}
    (isHeld : old ∈ names)
    (name : α) :
    (name ∈ names.map fun other => if other = old then new else other) ↔
      name = new ∨ name ≠ old ∧ name ∈ names := by
  rw [List.mem_map]
  constructor
  · rintro ⟨other, member, rfl⟩
    split
    · exact Or.inl rfl
    · next notOld => exact Or.inr ⟨notOld, member⟩
  · rintro (rfl | ⟨notOld, member⟩)
    · exact ⟨old, isHeld, if_pos rfl⟩
    · exact ⟨name, member, if_neg notOld⟩

/-- The storage servers keep to their answers. -/
def fleetServers (served : Nat → Bool) : FileServers Fleet where
  toStorageAnswers := fleetAnswers
  held fleet := heldNames served fleet.servers
  Sound fleet := NamesApartAt served fleet.servers
  Serves address := served address = true
  create := by
    intro address filename fleet owner isServed apart free
    have notHeld : filename ∉ recordNames (fleet.reached address) := by
      rw [mem_reached_iff apart isServed, free]
      nofun
    obtain ⟨stillApart, ended⟩ :=
      (apart.reached.1 address isServed).createFile (fleet.ahead 0).now
        (fleet.ahead 0).peer owner notHeld
    refine ⟨apart.reached.1.update fun _ => stillApart, ?_⟩
    rcases ended with ⟨refused, same⟩ | ⟨answer, grown⟩
    · refine Or.inl ⟨refused, ?_⟩
      exact (heldNames_update_same fun _ => same).trans apart.reached.2
    · refine Or.inr ⟨answer, heldNames_ext fun other name => ?_⟩
      have names :
          recordNames (fleet.answer address
            [str "CREATE_FILE", filename, owner]).2 =
              filename :: recordNames (fleet.reached address) :=
        grown
      refine (heldNames_answered_iff apart isServed _ other name).trans ?_
      rw [names, List.mem_cons, mem_reached_iff apart isServed,
        withName_isSome_iff]
      by_cases here : other = address
      · simp [here]
      · simp [here]
  delete := by
    intro address filename fleet apart isHeld
    have isServed := ((heldNames_isSome_iff _ _ _).mp isHeld).1
    rw [← mem_reached_iff apart isServed] at isHeld
    have sound := apart.reached.1 address isServed
    obtain ⟨stillApart, ended⟩ :=
      sound.deleteFile (fleet.ahead 0).now (fleet.ahead 0).peer isHeld
    refine ⟨apart.reached.1.update fun _ => stillApart, ?_⟩
    change if refusesDelete (fleet.reached address) filename then _ else _
    split
    · next refuses =>
      rw [if_pos refuses] at ended
      exact ⟨ended.1,
        (heldNames_update_same fun _ => ended.2).trans apart.reached.2⟩
    · next accepts =>
      rw [if_neg accepts] at ended
      refine ⟨ended.1, heldNames_ext fun other name => ?_⟩
      have names :
          recordNames (fleet.answer address
            [str "DELETE_FILE", filename]).2 =
              (recordNames (fleet.reached address)).erase filename :=
        ended.2
      refine (heldNames_answered_iff apart isServed _ other name).trans ?_
      rw [names, sound.names_nodup.mem_erase_iff,
        mem_reached_iff apart isServed, withoutName_isSome_iff]
      by_cases here : other = address
      · simp [here, and_comm]
      · simp [here]
  rename := by
    intro address old new fleet apart possible
    have isServed := ((heldNames_isSome_iff _ _ _).mp possible.held).1
    have isHeld := possible.held
    rw [← mem_reached_iff apart isServed] at isHeld
    have isFree : new ∉ recordNames (fleet.reached address) := by
      rw [mem_reached_iff apart isServed, possible.free]
      nofun
    obtain ⟨stillApart, ended⟩ :=
      (apart.reached.1 address isServed).rename (fleet.ahead 0).now
        (fleet.ahead 0).peer isHeld isFree
    refine ⟨apart.reached.1.update fun _ => stillApart, ?_⟩
    change if refusesRename (fleet.reached address) old new then _ else _
    split
    · next refuses =>
      rw [if_pos refuses] at ended
      exact ⟨ended.1,
        (heldNames_update_same fun _ => ended.2).trans apart.reached.2⟩
    · next accepts =>
      rw [if_neg accepts] at ended
      refine ⟨ended.1, heldNames_ext fun other name => ?_⟩
      have names :
          recordNames (fleet.answer address (ssRenameMessage old new)).2 =
            (recordNames (fleet.reached address)).map fun name =>
              if name = old then new else name :=
        ended.2
      refine (heldNames_answered_iff apart isServed _ other name).trans ?_
      rw [names, mem_renamed_iff isHeld]
      unfold Renaming.apply
      by_cases here : other = address
      · subst here
        rw [if_pos rfl, if_pos rfl]
        by_cases isNew : name = new
        · rw [if_pos isNew]
          simp [isNew, possible.held]
        · rw [if_neg isNew, mem_reached_iff apart isServed]
          by_cases isOld : name = old
          · simp [isOld, possible.old_ne_new]
          · simp [isNew, isOld]
      · rw [if_neg here, if_neg here]
  copy := by
    intro address arguments fleet apart
    have copied :=
      fun isServed =>
        (apart.reached.1 address isServed).copy (fleet.ahead 0).now
          (fleet.ahead 0).peer arguments
    exact ⟨apart.reached.1.update fun isServed => (copied isServed).1,
      (heldNames_update_same fun isServed => (copied isServed).2).trans
        apart.reached.2⟩

end Contract

/-! ## Runs -/

/--
A completed command of a client, something that happens on a storage server,
or a `WRITE_COMPLETE` notice that reaches the name server.
-/
inductive FleetStep where
  | command (now : Int) (username : CString) (command : FileCommand)
  | happening (happening : Happening)
  | notice (now : Int) (sender : StorageServerInfo) (msg : List CString)

def fleetStep (state : NsState Fleet) : FleetStep → NsState Fleet
  | .command now username command =>
      nsStep fleetBackend state (.command now username command.toCommand)
  | .happening happening =>
      let fleet := state.world
      { state with
        world := { fleet with servers := happen fleet.servers happening } }
  | .notice now sender msg =>
      nsStep fleetBackend state (.writeComplete now sender msg)

/-- The step is not a command that is stopped half-way for good. -/
def sparesStep (state : NsState Fleet) : FleetStep → Bool
  | .command _ username command =>
      fleetAnswers.spares username command state
  | .happening _ | .notice _ _ _ => true

/-- What is true of the name server and its storage servers all the time. -/
structure FleetSound (state : NsState Fleet) : Prop where
  registry : Registry state.ns
  servers : ServersSound state.ns.storageServers
  names :
    ∀ ss ∈ state.ns.storageServers, ss.IsConnected →
      NamesApart (state.world.servers ss.address)

/--
There is an entry for a file homed on a connected storage server exactly if
that server has a record of the name.
-/
def RegistryAgrees (state : NsState Fleet) : Prop :=
  ∀ ss ∈ state.ns.storageServers, ss.IsConnected →
    ∀ name,
      HomedName state.ns ss.address name ↔
        name ∈ recordNames (state.world.servers ss.address)

/-- The addresses of the connected storage servers. -/
def connectedAddress (ns : NameServer) (address : Nat) : Bool :=
  ns.storageServers.any fun ss =>
    ss.isAlive && decide (0 ≤ ss.sockfd) && decide (ss.address = address)

theorem connectedAddress_iff
    (ns : NameServer)
    (address : Nat) :
    connectedAddress ns address = true ↔
      ∃ ss ∈ ns.storageServers, ss.IsConnected ∧ ss.address = address := by
  simp only [connectedAddress, List.any_eq_true, Bool.and_eq_true,
    decide_eq_true_eq, StorageServerInfo.IsConnected]

/-- What is homed at an address is homed on a connected server. -/
theorem HomedName.connectedAddress
    {ns : NameServer}
    {address : Nat}
    {name : CString}
    (homed : HomedName ns address name) :
    DistributedDocs.connectedAddress ns address = true := by
  obtain ⟨file, _, _, _, isHome⟩ := homed
  obtain ⟨ss, found, isServer⟩ := Option.map_eq_some_iff.mp isHome
  have accepted := List.find?_some found
  simp only [Bool.and_eq_true, decide_eq_true_eq] at accepted
  exact (connectedAddress_iff ns address).mpr
    ⟨ss, List.mem_of_find?_eq_some found, accepted.1, isServer⟩

section Runs

variable
  {state : NsState Fleet}
  {served : Nat → Bool}

/-- Agreement as the contract of the storage servers has it. -/
theorem inAgreement_of_agrees
    (sound : FleetSound state)
    (agrees : RegistryAgrees state) :
    (fleetServers (connectedAddress state.ns)).InAgreement state where
  registry := sound.registry
  serversSound := sound.servers
  serves ss member connected :=
    (connectedAddress_iff state.ns ss.address).mpr
      ⟨ss, member, connected, rfl⟩
  sound address isServed := by
    obtain ⟨ss, member, connected, rfl⟩ :=
      (connectedAddress_iff state.ns address).mp isServed
    exact sound.names ss member connected
  agrees := by
    rw [FileServers.agrees_iff]
    intro address name
    refine (heldNames_isSome_iff state.world.servers address name).trans ?_
    constructor
    · rintro ⟨isServed, isHeld⟩
      obtain ⟨ss, member, connected, rfl⟩ :=
        (connectedAddress_iff state.ns address).mp isServed
      exact (agrees ss member connected name).mpr isHeld
    · intro homed
      have isServed := homed.connectedAddress
      obtain ⟨ss, member, connected, rfl⟩ :=
        (connectedAddress_iff state.ns address).mp isServed
      exact ⟨isServed, (agrees ss member connected name).mp homed⟩

theorem agrees_of_inAgreement
    (agreement : (fleetServers served).InAgreement state) :
    RegistryAgrees state := by
  intro ss member connected name
  refine (agreement.agrees ss.address name).symm.trans ?_
  refine (heldNames_isSome_iff state.world.servers ss.address name).trans ?_
  exact and_iff_right (agreement.serves ss member connected)

/-- A notice changes sizes and stamps only. -/
theorem kept_applyWriteComplete
    (now : Int)
    (sender : StorageServerInfo)
    (msg : List CString)
    (ns : NameServer) :
    connectionsOf (applyWriteComplete now sender msg ns) =
        connectionsOf ns ∧
      (applyWriteComplete now sender msg ns).files.map placeOf =
        ns.files.map placeOf := by
  unfold applyWriteComplete
  split
  · next type filename size words chars rest =>
    simp only
    split
    · next index file found =>
      have only :=
        onlyCacheChanged_fileCacheStore filename index
          (changeFile index
            (countedMetadata now (atoll size) (atoll words)
              (atoll chars)) ns)
      have connections := connectionsOf_of_servers only.storageServers
      have stays :
          ∀ file : FileMetadata,
            placeOf
                (countedMetadata now (atoll size) (atoll words)
                  (atoll chars) file) =
              placeOf file :=
        fun _ => rfl
      have places := congrArg (List.map placeOf) only.files
      have same := places.trans (map_modify_same stays index ns.files)
      have keeps :
          ∀ ss,
            endpointOf (resized (toLongLong (atoll size - file.size)) ss) =
              endpointOf ss :=
        fun _ => rfl
      split
      · exact ⟨(connectionsOf_changeServer keeps _ _).trans connections, same⟩
      · exact ⟨connections, same⟩
    · exact ⟨rfl, rfl⟩
  · exact ⟨rfl, rfl⟩

/-- A step that is spared keeps the agreement. -/
theorem FileServers.InAgreement.fleetStep
    (agreement : (fleetServers served).InAgreement state)
    (step : FleetStep)
    (spared : sparesStep state step = true) :
    (fleetServers served).InAgreement
      (DistributedDocs.fleetStep state step) := by
  cases step with
  | command now username command =>
      exact FileServers.InAgreement.command agreement now username command
        spared
  | happening happening =>
      obtain ⟨apart, same⟩ :=
        NamesApartAt.happen agreement.sound happening
      exact agreement.of_kept agreement.registry rfl rfl apart same
  | notice now sender msg =>
      obtain ⟨connections, places⟩ :=
        kept_applyWriteComplete now sender msg state.ns
      exact agreement.of_kept
        (agreement.registry.applyWriteComplete sender msg) connections places
        agreement.sound rfl

end Runs

/--
From every sound state in which they agree, registry and storage agree at the
end of every run in which no `DELETE` is refused after it has deleted a file
and no `MOVE` fails to take its renames back.
-/
theorem registryAgrees_of_spared
    {start : NsState Fleet}
    (sound : FleetSound start)
    (agrees : RegistryAgrees start)
    {steps : List FleetStep}
    (spared :
      GuardedRun fleetStep (fun state step => sparesStep state step = true)
        start steps) :
    RegistryAgrees (runFrom fleetStep start steps) := by
  have preserved :
      ∀ (state : NsState Fleet) (step : FleetStep),
        (fleetServers (connectedAddress start.ns)).InAgreement state →
          sparesStep state step = true →
            (fleetServers (connectedAddress start.ns)).InAgreement
              (fleetStep state step) :=
    fun _ step agreement isSpared => agreement.fleetStep step isSpared
  exact agrees_of_inAgreement
    (spared.invariant preserved (inAgreement_of_agrees sound agrees))

/-! ## A folder of two files -/

/-- A storage server without files, and no clients. -/
def emptyFleet : NsState Fleet where
  ns := { nsInit with storageServers := [someStorageServer] }
  world :=
    { servers := fun _ => newServer ⟨str "/data", by decide⟩
      ahead := fun _ => ⟨[], 7, .unreachable⟩ }

theorem fleetSound_emptyFleet : FleetSound emptyFleet where
  registry := registry_nsInit.of_same rfl rfl rfl
  servers := by
    refine ⟨by decide, ?_⟩
    intro first firstMember second secondMember _ _ _ _
    rw [List.mem_singleton.mp firstMember, List.mem_singleton.mp secondMember]
  names _ _ _ := NamesApart.newServer _

theorem registryAgrees_emptyFleet : RegistryAgrees emptyFleet := by
  intro ss _ _ name
  constructor
  · rintro ⟨file, present, _⟩
    cases present
  · intro isHeld
    cases isHeld

/-- A folder with two files, to the second of which somebody is writing. -/
def writingInFolder : List FleetStep :=
  [ .command 1 (str "ada")
      (.createFolder [str "CREATEFOLDER", str "d"]),
    .command 2 (str "ada") (.create [str "CREATE", str "d/a"]),
    .command 3 (str "ada") (.create [str "CREATE", str "d/b"]),
    .happening (.client 0
      ⟨4, .writeLock 4 [str "REQ_WRITE_LOCK", str "ada", str "d/b",
        str "0"]⟩ nofun) ]

/-- Deleting the file in use, moving the other, and deleting it. -/
def deletingOne : List FleetStep :=
  [ .command 5 (str "ada") (.delete [str "DELETE", str "d/b"]),
    .command 6 (str "ada") (.move [str "MOVE", str "d/a", str "/"]),
    .notice 7 someStorageServer
      [str "WRITE_COMPLETE", str "a", str "3", str "1", str "3"],
    .command 8 (str "ada") (.delete [str "DELETE", str "a"]) ]

theorem registryAgrees_of_spared_folder :
    RegistryAgrees
        (runFrom fleetStep emptyFleet (writingInFolder ++ deletingOne)) ∧
      (runFrom fleetStep emptyFleet
          (writingInFolder ++ deletingOne)).ns.files.map
            FileMetadata.filename =
        [str "d", str "d/b"] :=
  ⟨registryAgrees_of_spared fleetSound_emptyFleet registryAgrees_emptyFleet
    (by decide +kernel), by decide +kernel⟩

/-- Deleting the folder removes the first file and is refused for the second. -/
theorem not_registryAgrees_folder :
    FleetSound emptyFleet ∧ RegistryAgrees emptyFleet ∧
      ¬RegistryAgrees
        (runFrom fleetStep emptyFleet
          (writingInFolder ++
            [.command 5 (str "ada") (.delete [str "DELETE", str "d"])])) := by
  refine ⟨fleetSound_emptyFleet, registryAgrees_emptyFleet, fun agrees => ?_⟩
  generalize ended :
    runFrom fleetStep emptyFleet
      (writingInFolder ++
        [.command 5 (str "ada") (.delete [str "DELETE", str "d"])]) =
      final at agrees
  have isConnected : connectedAddress final.ns 0 = true := by
    rw [← ended]
    decide +kernel
  have homed : HomedName final.ns 0 (str "d/a") := by
    rw [← ended]
    unfold HomedName
    decide +kernel
  have notHeld : str "d/a" ∉ recordNames (final.world.servers 0) := by
    rw [← ended]
    decide +kernel
  obtain ⟨ss, member, connected, address⟩ :=
    (connectedAddress_iff final.ns 0).mp isConnected
  rw [← address] at homed notHeld
  exact notHeld ((agrees ss member connected _).mp homed)

end DistributedDocs
