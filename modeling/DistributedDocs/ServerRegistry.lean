import DistributedDocs.NameServerLookup
import DistributedDocs.ServerConnection

namespace DistributedDocs

/-!
# The registry of storage servers

`connection_thread` registers a storage server, runs its loops and, at the end,
looks for the entry by the socket.  Both loops leave with the socket of the
entry already set to -1, so the entry is never found.
-/

/-- `is_valid_port` -/
def isValidPort (port : Int) : Bool :=
  0 < port && port ≤ 65535

/-- One number of a dotted address as `inet_pton` takes it. -/
def isOctet (part : CString) : Bool :=
  let digits := part.all fun c => 48 ≤ c.val && c.val ≤ 57
  let leadingZero := 1 < part.length && part.head? = CChar.ofChar '0'
  part ≠ [] && digits && !leadingZero && (strtol part).1 ≤ 255

/-- `is_valid_ip` -/
def isValidIp (ip : CString) : Bool :=
  let parts := ip.splitOnP fun c => c = CChar.ofChar '.'
  parts.length = 4 && parts.all isOctet

/--
The connection of a registered storage server.  `ssInfo` is the address of its
entry; the endpoint is the one it has registered for clients.
-/
structure SsConnection where
  fd : Int
  ssInfo : Option Nat
  clientIp : CString
  clientPort : Int
  phase : ReaderPhase
  deriving DecidableEq

/--
The table of storage servers and the connections whose threads run.
`nextAddress` is the address `calloc` gives next.
-/
structure SsRegistry where
  servers : List StorageServerInfo
  connections : List SsConnection
  nextAddress : Nat

/-- Nobody is connected. -/
def SsRegistry.empty : SsRegistry :=
  ⟨[], [], 0⟩

namespace SsRegistry

/-- `find_storage_server_by_sockfd` -/
def findBySockfd (fd : Int) (servers : List StorageServerInfo) :
    Option StorageServerInfo :=
  servers.find? fun info => info.sockfd = fd

/-- The entry `ns_register_storage_server` fills in. -/
def newEntry
    (clientIp : CString)
    (clientPort fd : Int)
    (address : Nat) : StorageServerInfo where
  address := address
  clientIp := safeStrcpy clientIp maxIpLength
  clientIp_short := length_safeStrcpy_lt _ (by decide)
  clientPort := clientPort
  sockfd := fd
  isAlive := true
  totalBytes := 0
  totalFiles := 0

/-- `ns_register_storage_server`; none where it returns -1. -/
def nsRegisterStorageServer
    (clientIp : CString)
    (clientPort fd : Int)
    (reg : SsRegistry) : Option SsRegistry :=
  if nsMaxStorageServers ≤ reg.servers.length then
    none
  else if
      reg.servers.any fun info =>
        info.isAlive && info.clientIp = clientIp &&
          info.clientPort = clientPort then
    none
  else
    some
      { reg with
        servers :=
          reg.servers ++ [newEntry clientIp clientPort fd reg.nextAddress]
        nextAddress := reg.nextAddress + 1 }

/-- The handshake of `HELLO_SS` on an accepted descriptor. -/
def hello
    (fd : Int)
    (nsIp : CString)
    (nsPort : Int)
    (clientIp : CString)
    (clientPort : Int)
    (reg : SsRegistry) : SsRegistry :=
  if !isValidIp nsIp || !isValidPort nsPort || !isValidIp clientIp ||
      !isValidPort clientPort then
    reg
  else
    match nsRegisterStorageServer clientIp clientPort fd reg with
    | none => reg
    | some registered =>
        { registered with
          connections :=
            registered.connections ++
              [{ fd := fd
                 ssInfo := (findBySockfd fd registered.servers).map (·.address)
                 clientIp := safeStrcpy clientIp maxIpLength
                 clientPort := clientPort
                 phase := .syncing }] }

/-- `storage_server_signal_failure`, and the end of `run_ss_loop`. -/
def signalFailure (ssInfo : Option Nat) (reg : SsRegistry) : SsRegistry :=
  { reg with
    servers :=
      reg.servers.map fun info =>
        if some info.address = ssInfo then
          { info with isAlive := false, sockfd := -1 }
        else
          info }

/-- A connection whose thread is in `run_ss_loop`. -/
def openAt (fd : Int) (reg : SsRegistry) : Option SsConnection :=
  reg.connections.find? fun conn => conn.fd = fd && conn.phase ≠ .ended

/-- The thread of an open connection goes on to another part of its code. -/
def setPhase (fd : Int) (phase : ReaderPhase) (reg : SsRegistry) :
    SsRegistry :=
  { reg with
    connections :=
      reg.connections.map fun conn =>
        if conn.fd = fd && conn.phase ≠ .ended then
          { conn with phase := phase }
        else
          conn }

/-- The reader finds the connection closed, in either loop. -/
def disconnect (fd : Int) (reg : SsRegistry) : SsRegistry :=
  match reg.openAt fd with
  | none => reg
  | some conn => (reg.signalFailure conn.ssInfo).setPhase fd .ended

/-- The loop over `storage_servers[]` at the end of `connection_thread`. -/
def deregister (fd : Int) (reg : SsRegistry) : SsRegistry :=
  match
    reg.servers.findIdx? fun info => info.sockfd = fd,
    reg.servers.getLast? with
  | some hole, some last =>
      { reg with servers := (reg.servers.set hole last).dropLast }
  | _, _ => reg

/-- The end of `connection_thread`, with `close` of the descriptor. -/
def teardown (fd : Int) (reg : SsRegistry) : SsRegistry :=
  if reg.connections.any fun conn => conn.fd = fd && conn.phase = .ended then
    let deregistered := reg.deregister fd
    { deregistered with
      connections := deregistered.connections.filter fun conn => conn.fd ≠ fd }
  else
    reg

end SsRegistry

/-- What happens to the registry. -/
inductive RegistryEvent where
  | hello
      (fd : Int)
      (nsIp : CString)
      (nsPort : Int)
      (clientIp : CString)
      (clientPort : Int)
  | filesDone (fd : Int)
  | disconnect (fd : Int)
  | teardown (fd : Int)
  deriving DecidableEq

/-- One event; `accept` never gives a descriptor that is still open. -/
def registryStep (reg : SsRegistry) : RegistryEvent → SsRegistry
  | .hello fd nsIp nsPort clientIp clientPort =>
      if fd < 0 ∨ fd ∈ reg.connections.map SsConnection.fd then
        reg
      else
        reg.hello fd nsIp nsPort clientIp clientPort
  | .filesDone fd =>
      if (reg.openAt fd).isSome then reg.setPhase fd .serving else reg
  | .disconnect fd =>
      reg.disconnect fd
  | .teardown fd =>
      reg.teardown fd

/-! ## What the registry should say -/

namespace SsRegistry

/-- Every connection that has been closed is torn down. -/
def AllTornDown (reg : SsRegistry) : Prop :=
  ∀ conn ∈ reg.connections, conn.phase ≠ .ended

/-- The table holds exactly one entry for each connection. -/
def OneEntryEach (reg : SsRegistry) : Prop :=
  (reg.servers.map fun info => some info.address).Perm
    (reg.connections.map SsConnection.ssInfo)

/--
A server registers whenever there are fewer connections than the table has
places and none of them has its endpoint.
-/
def CanRegister (reg : SsRegistry) : Prop :=
  ∀ fd nsIp nsPort clientIp clientPort,
    0 ≤ fd → fd ∉ reg.connections.map SsConnection.fd →
      isValidIp nsIp = true → isValidPort nsPort = true →
        isValidIp clientIp = true → isValidPort clientPort = true →
          reg.connections.length < nsMaxStorageServers →
            (∀ conn ∈ reg.connections,
              (conn.clientIp, conn.clientPort) ≠ (clientIp, clientPort)) →
              (registryStep reg
                  (.hello fd nsIp nsPort clientIp clientPort)).connections.map
                  SsConnection.fd =
                reg.connections.map SsConnection.fd ++ [fd]

/-- No connection is closed. -/
def StaysConnected (reg : SsRegistry) : RegistryEvent → Prop
  | .disconnect fd =>
      fd ∉ reg.connections.map SsConnection.fd
  | _ => True

instance (reg : SsRegistry) : Decidable reg.AllTornDown :=
  inferInstanceAs (Decidable (∀ conn ∈ reg.connections, _))

instance (reg : SsRegistry) : ∀ event, Decidable (reg.StaysConnected event)
  | .disconnect fd =>
      inferInstanceAs
        (Decidable (fd ∉ reg.connections.map SsConnection.fd))
  | .hello _ _ _ _ _ | .filesDone _ | .teardown _ =>
      inferInstanceAs (Decidable True)

end SsRegistry

/-! ## While everybody stays connected -/

/-- Entries and connections run in parallel. -/
structure AllConnected (reg : SsRegistry) : Prop where
  entries :
    (reg.servers.map fun info =>
        (info.sockfd, some info.address, info.clientIp, info.clientPort)) =
      reg.connections.map fun conn =>
        (conn.fd, conn.ssInfo, conn.clientIp, conn.clientPort)
  addresses :
    reg.servers.map (·.address) = List.range reg.nextAddress
  fds_nonneg : ∀ conn ∈ reg.connections, 0 ≤ conn.fd
  tornDown : reg.AllTornDown

/-- Registration adds an entry at the next address. -/
theorem nsRegisterStorageServer_eq_some
    {clientIp : CString}
    {clientPort fd : Int}
    {reg registered : SsRegistry}
    (done :
      SsRegistry.nsRegisterStorageServer clientIp clientPort fd reg =
        some registered) :
    registered =
      { reg with
        servers :=
          reg.servers ++
            [SsRegistry.newEntry clientIp clientPort fd reg.nextAddress]
        nextAddress := reg.nextAddress + 1 } := by
  unfold SsRegistry.nsRegisterStorageServer at done
  split at done
  · cases done
  · split at done
    · cases done
    · exact (Option.some.inj done).symm

namespace AllConnected

variable {reg : SsRegistry}

theorem empty : AllConnected .empty where
  entries := rfl
  addresses := rfl
  fds_nonneg _ member := by cases member
  tornDown _ member := by cases member

theorem sockfds (connected : AllConnected reg) :
    reg.servers.map (·.sockfd) = reg.connections.map SsConnection.fd := by
  simpa [Function.comp_def] using congrArg (List.map (·.1)) connected.entries

theorem ssInfos (connected : AllConnected reg) :
    (reg.servers.map fun info => some info.address) =
      reg.connections.map SsConnection.ssInfo := by
  simpa [Function.comp_def] using congrArg (List.map (·.2.1)) connected.entries

theorem endpoints (connected : AllConnected reg) :
    (reg.servers.map fun info => (info.clientIp, info.clientPort)) =
      reg.connections.map fun conn => (conn.clientIp, conn.clientPort) := by
  simpa [Function.comp_def] using congrArg (List.map (·.2.2)) connected.entries

theorem findBySockfd_append
    (connected : AllConnected reg)
    {fd : Int}
    (fresh : fd ∉ reg.connections.map SsConnection.fd)
    {entry : StorageServerInfo}
    (here : entry.sockfd = fd) :
    SsRegistry.findBySockfd fd (reg.servers ++ [entry]) = some entry := by
  have others :
      reg.servers.find? (fun info => info.sockfd = fd) = none := by
    rw [List.find?_eq_none]
    intro info member found
    rw [← connected.sockfds] at fresh
    exact fresh (List.mem_map.mpr ⟨info, member, by simpa using found⟩)
  simp [SsRegistry.findBySockfd, List.find?_append, others, here]

theorem hello
    (connected : AllConnected reg)
    {fd : Int}
    (accepted : ¬(fd < 0 ∨ fd ∈ reg.connections.map SsConnection.fd))
    (nsIp : CString)
    (nsPort : Int)
    (clientIp : CString)
    (clientPort : Int) :
    AllConnected (reg.hello fd nsIp nsPort clientIp clientPort) := by
  obtain ⟨nonneg, fresh⟩ := not_or.mp accepted
  unfold SsRegistry.hello
  split
  · exact connected
  · split
    · exact connected
    · next registered done =>
      obtain rfl := nsRegisterStorageServer_eq_some done
      exact
        { entries := by
            simp [connected.entries, connected.findBySockfd_append fresh,
              SsRegistry.newEntry]
          addresses := by
            simp [connected.addresses, SsRegistry.newEntry, List.range_succ]
          fds_nonneg := by
            intro conn member
            rcases List.mem_append.mp member with earlier | last
            · exact connected.fds_nonneg conn earlier
            · obtain rfl := List.mem_singleton.mp last
              exact Int.not_lt.mp nonneg
          tornDown := by
            intro conn member
            rcases List.mem_append.mp member with earlier | last
            · exact connected.tornDown conn earlier
            · obtain rfl := List.mem_singleton.mp last
              simp }

theorem filesDone
    (connected : AllConnected reg)
    (fd : Int) :
    AllConnected (reg.setPhase fd .serving) where
  entries := by
    rw [SsRegistry.setPhase, List.map_map]
    refine connected.entries.trans (List.map_congr_left fun conn _ => ?_)
    simp only [Function.comp_apply]
    split <;> rfl
  addresses := connected.addresses
  fds_nonneg := by
    intro conn member
    obtain ⟨before, wasMember, rfl⟩ := List.mem_map.mp member
    have nonneg := connected.fds_nonneg before wasMember
    split <;> exact nonneg
  tornDown := by
    intro conn member
    obtain ⟨before, wasMember, rfl⟩ := List.mem_map.mp member
    have isOpen := connected.tornDown before wasMember
    split
    · simp
    · exact isOpen

theorem openAt_eq_none
    {fd : Int}
    (absent : fd ∉ reg.connections.map SsConnection.fd) :
    reg.openAt fd = none := by
  rw [SsRegistry.openAt, List.find?_eq_none]
  intro conn member found
  simp only [Bool.and_eq_true, decide_eq_true_eq] at found
  exact absent (List.mem_map.mpr ⟨conn, member, found.1⟩)

theorem step
    (connected : AllConnected reg)
    {event : RegistryEvent}
    (stays : reg.StaysConnected event) :
    AllConnected (registryStep reg event) := by
  cases event with
  | hello fd nsIp nsPort clientIp clientPort =>
      simp only [registryStep]
      split
      · exact connected
      · next accepted =>
        exact connected.hello accepted nsIp nsPort clientIp clientPort
  | filesDone fd =>
      simp only [registryStep]
      split
      · exact connected.filesDone fd
      · exact connected
  | disconnect fd =>
      simpa [registryStep, SsRegistry.disconnect, openAt_eq_none stays]
        using connected
  | teardown fd =>
      have nothingToDo :
          ¬(reg.connections.any fun conn =>
            conn.fd = fd && conn.phase = .ended) = true := by
        simp only [List.any_eq_true, Bool.and_eq_true, decide_eq_true_eq,
          not_exists, not_and]
        exact fun conn member _ => connected.tornDown conn member
      simpa only [registryStep, SsRegistry.teardown, if_neg nothingToDo]
        using connected

theorem oneEntryEach (connected : AllConnected reg) : reg.OneEntryEach :=
  .of_eq connected.ssInfos

theorem canRegister (connected : AllConnected reg) : reg.CanRegister := by
  intro fd nsIp nsPort clientIp clientPort nonneg fresh nsIpValid nsPortValid
    ipValid portValid room apart
  have length : reg.servers.length = reg.connections.length := by
    simpa using congrArg List.length connected.ssInfos
  have notFull : ¬nsMaxStorageServers ≤ reg.servers.length := by omega
  have notTaken :
      ¬(reg.servers.any fun info =>
        info.isAlive && info.clientIp = clientIp &&
          info.clientPort = clientPort) = true := by
    simp only [List.any_eq_true, Bool.and_eq_true, decide_eq_true_eq,
      not_exists, not_and]
    rintro info member ⟨_, sameIp⟩ samePort
    have registered :
        (clientIp, clientPort) ∈
          reg.connections.map fun conn => (conn.clientIp, conn.clientPort) := by
      rw [← connected.endpoints]
      exact List.mem_map.mpr ⟨info, member, by rw [sameIp, samePort]⟩
    obtain ⟨conn, connMember, same⟩ := List.mem_map.mp registered
    exact apart conn connMember same
  have accepted : ¬(fd < 0 ∨ fd ∈ reg.connections.map SsConnection.fd) :=
    not_or.mpr ⟨Int.not_lt.mpr nonneg, fresh⟩
  simp only [registryStep, if_neg accepted, SsRegistry.hello, nsIpValid,
    nsPortValid, ipValid, portValid, Bool.not_true, Bool.or_self,
    Bool.false_eq_true, ↓reduceIte, SsRegistry.nsRegisterStorageServer,
    if_neg notFull, if_neg notTaken, List.map_append, List.map_cons,
    List.map_nil]

end AllConnected

/-! ## After a connection has been closed -/

/-- An entry without a socket, whose connection is closed. -/
structure LeftOver (address : Nat) (reg : SsRegistry) : Prop where
  kept : ∃ info ∈ reg.servers, info.address = address
  unfindable :
    ∀ info ∈ reg.servers, info.address = address → info.sockfd = -1
  used : address < reg.nextAddress
  closed :
    ∀ conn ∈ reg.connections, conn.ssInfo = some address →
      conn.phase = .ended
  fds_nonneg : ∀ conn ∈ reg.connections, 0 ≤ conn.fd

namespace LeftOver

variable {reg : SsRegistry} {address : Nat}

theorem hello
    (leftOver : LeftOver address reg)
    {fd : Int}
    (nonneg : 0 ≤ fd)
    (nsIp : CString)
    (nsPort : Int)
    (clientIp : CString)
    (clientPort : Int) :
    LeftOver address (reg.hello fd nsIp nsPort clientIp clientPort) := by
  unfold SsRegistry.hello
  split
  · exact leftOver
  · split
    · exact leftOver
    · next registered done =>
      obtain rfl := nsRegisterStorageServer_eq_some done
      have another : reg.nextAddress ≠ address :=
        (Nat.ne_of_lt leftOver.used).symm
      have unfindable :
          ∀ info ∈
              reg.servers ++
                [SsRegistry.newEntry clientIp clientPort fd reg.nextAddress],
            info.address = address → info.sockfd = -1 := by
        intro info member here
        rcases List.mem_append.mp member with earlier | last
        · exact leftOver.unfindable info earlier here
        · obtain rfl := List.mem_singleton.mp last
          exact absurd here another
      obtain ⟨info, member, here⟩ := leftOver.kept
      refine
        { kept := ⟨info, List.mem_append_left _ member, here⟩
          unfindable := unfindable
          used := Nat.lt_succ_of_lt leftOver.used
          closed := ?_
          fds_nonneg := ?_ }
      · intro conn member own
        rcases List.mem_append.mp member with earlier | last
        · exact leftOver.closed conn earlier own
        · obtain rfl := List.mem_singleton.mp last
          obtain ⟨found, isFound, same⟩ := Option.map_eq_some_iff.mp own
          have foundHere : found.sockfd = fd := by
            simpa using List.find?_some isFound
          have cut :=
            unfindable found (List.mem_of_find?_eq_some isFound) same
          omega
      · intro conn member
        rcases List.mem_append.mp member with earlier | last
        · exact leftOver.fds_nonneg conn earlier
        · obtain rfl := List.mem_singleton.mp last
          exact nonneg

theorem setPhase
    (leftOver : LeftOver address reg)
    (fd : Int)
    (phase : ReaderPhase) :
    LeftOver address (reg.setPhase fd phase) where
  kept := leftOver.kept
  unfindable := leftOver.unfindable
  used := leftOver.used
  closed := by
    intro conn member own
    obtain ⟨before, wasMember, rfl⟩ := List.mem_map.mp member
    split at own
    · next changed =>
      have ended := leftOver.closed before wasMember own
      simp [ended] at changed
    · next unchanged =>
      rw [if_neg unchanged]
      exact leftOver.closed before wasMember own
  fds_nonneg := by
    intro conn member
    obtain ⟨before, wasMember, rfl⟩ := List.mem_map.mp member
    have nonneg := leftOver.fds_nonneg before wasMember
    split <;> exact nonneg

theorem signalFailure
    (leftOver : LeftOver address reg)
    (ssInfo : Option Nat) :
    LeftOver address (reg.signalFailure ssInfo) where
  kept := by
    obtain ⟨info, member, here⟩ := leftOver.kept
    refine ⟨_, List.mem_map_of_mem member, ?_⟩
    split <;> exact here
  unfindable := by
    intro info member here
    obtain ⟨before, wasMember, rfl⟩ := List.mem_map.mp member
    split at here
    · next cut =>
      rw [if_pos cut]
    · next uncut =>
      rw [if_neg uncut]
      exact leftOver.unfindable before wasMember here
  used := leftOver.used
  closed := leftOver.closed
  fds_nonneg := leftOver.fds_nonneg

theorem disconnect
    (leftOver : LeftOver address reg)
    (fd : Int) :
    LeftOver address (reg.disconnect fd) := by
  unfold SsRegistry.disconnect
  split
  · exact leftOver
  · exact (leftOver.signalFailure _).setPhase fd .ended

/-- The search by descriptor passes the entry over. -/
theorem deregister
    (leftOver : LeftOver address reg)
    {fd : Int}
    (nonneg : 0 ≤ fd) :
    LeftOver address (reg.deregister fd) := by
  unfold SsRegistry.deregister
  split
  · next hole last found isLast =>
    obtain ⟨inRange, here, _⟩ := List.findIdx?_eq_some_iff_getElem.mp found
    have others := dropLast_set_perm isLast inRange
    have remaining :
        ∀ info ∈ (reg.servers.set hole last).dropLast, info ∈ reg.servers :=
      fun info member =>
        (List.eraseIdx_sublist reg.servers hole).subset (others.mem_iff.mp member)
    obtain ⟨info, member, own⟩ := leftOver.kept
    obtain ⟨position, held⟩ := List.getElem?_of_mem member
    have elsewhere : position ≠ hole := by
      rintro rfl
      obtain ⟨_, isInfo⟩ := List.getElem?_eq_some_iff.mp held
      have cut := leftOver.unfindable info member own
      rw [isInfo, cut] at here
      simp only [decide_eq_true_eq] at here
      omega
    exact
      { kept :=
          ⟨info,
            others.mem_iff.mpr
              (List.mem_eraseIdx_iff_getElem?.mpr ⟨position, elsewhere, held⟩),
            own⟩
        unfindable := fun info member =>
          leftOver.unfindable info (remaining info member)
        used := leftOver.used
        closed := leftOver.closed
        fds_nonneg := leftOver.fds_nonneg }
  · exact leftOver

theorem teardown
    (leftOver : LeftOver address reg)
    (fd : Int) :
    LeftOver address (reg.teardown fd) := by
  unfold SsRegistry.teardown
  split
  · next isEnded =>
    obtain ⟨conn, member, here⟩ := List.any_eq_true.mp isEnded
    simp only [Bool.and_eq_true, decide_eq_true_eq] at here
    have removed :=
      leftOver.deregister (here.1 ▸ leftOver.fds_nonneg conn member)
    exact
      { kept := removed.kept
        unfindable := removed.unfindable
        used := removed.used
        closed := fun conn member =>
          removed.closed conn (List.mem_filter.mp member).1
        fds_nonneg := fun conn member =>
          removed.fds_nonneg conn (List.mem_filter.mp member).1 }
  · exact leftOver

theorem step
    (leftOver : LeftOver address reg)
    (event : RegistryEvent) :
    LeftOver address (registryStep reg event) := by
  cases event with
  | hello fd nsIp nsPort clientIp clientPort =>
      simp only [registryStep]
      split
      · exact leftOver
      · next accepted =>
        exact leftOver.hello (Int.not_lt.mp (not_or.mp accepted).1) nsIp nsPort
          clientIp clientPort
  | filesDone fd =>
      simp only [registryStep]
      split
      · exact leftOver.setPhase fd .serving
      · exact leftOver
  | disconnect fd =>
      exact leftOver.disconnect fd
  | teardown fd =>
      exact leftOver.teardown fd

/-- The entry has no connection once all teardowns are over. -/
theorem not_oneEntryEach
    (leftOver : LeftOver address reg)
    (tornDown : reg.AllTornDown) :
    ¬reg.OneEntryEach := by
  intro oneEach
  obtain ⟨info, member, here⟩ := leftOver.kept
  have listed :=
    oneEach.mem_iff.mp (List.mem_map.mpr ⟨info, member, congrArg some here⟩)
  obtain ⟨conn, connMember, own⟩ := List.mem_map.mp listed
  exact tornDown conn connMember (leftOver.closed conn connMember own)

end LeftOver

/-- Closing a connection leaves its entry behind. -/
theorem AllConnected.leftOver
    {reg : SsRegistry}
    (connected : AllConnected reg)
    {fd : Int}
    (present : fd ∈ reg.connections.map SsConnection.fd) :
    ∃ address, LeftOver address (reg.disconnect fd) := by
  obtain ⟨conn, member, here⟩ := List.mem_map.mp present
  obtain ⟨closing, isOpen⟩ : ∃ closing, reg.openAt fd = some closing := by
    rw [← Option.isSome_iff_exists, SsRegistry.openAt, List.find?_isSome]
    exact ⟨conn, member, by simp [here, connected.tornDown conn member]⟩
  have closingMember := List.mem_of_find?_eq_some isOpen
  have closingHere : closing.fd = fd := by
    have found := List.find?_some isOpen
    simp only [Bool.and_eq_true, decide_eq_true_eq] at found
    exact found.1
  obtain ⟨info, infoMember, own⟩ :
      ∃ info ∈ reg.servers, some info.address = closing.ssInfo :=
    List.mem_map.mp
      (connected.ssInfos ▸ List.mem_map_of_mem closingMember)
  have ssInfosNodup : (reg.connections.map SsConnection.ssInfo).Nodup := by
    have addressesNodup : (reg.servers.map (·.address)).Nodup := by
      rw [connected.addresses]
      exact List.nodup_range
    rw [← connected.ssInfos]
    simpa [Function.comp_def] using
      addressesNodup.map (Option.some_injective Nat)
  refine ⟨info.address, ?_⟩
  simp only [SsRegistry.disconnect, isOpen]
  exact
    { kept := by
        refine ⟨_, List.mem_map_of_mem infoMember, ?_⟩
        split <;> rfl
      unfindable := by
        intro other otherMember same
        obtain ⟨before, _, rfl⟩ := List.mem_map.mp otherMember
        split at same
        · next cut =>
          rw [if_pos cut]
        · next uncut =>
          exact absurd (same ▸ own) uncut
      used := by
        have listed : info.address ∈ List.range reg.nextAddress :=
          connected.addresses ▸ List.mem_map_of_mem infoMember
        exact List.mem_range.mp listed
      closed := by
        intro other otherMember same
        obtain ⟨before, beforeMember, rfl⟩ := List.mem_map.mp otherMember
        have sameInfo : before.ssInfo = closing.ssInfo := by
          rw [← own, ← same]
          split <;> rfl
        obtain rfl :=
          List.inj_on_of_nodup_map ssInfosNodup beforeMember closingMember
            sameInfo
        rw [if_pos (by
          simp [closingHere, connected.tornDown before beforeMember])]
      fds_nonneg := by
        intro other otherMember
        obtain ⟨before, beforeMember, rfl⟩ := List.mem_map.mp otherMember
        have nonneg := connected.fds_nonneg before beforeMember
        split <;> exact nonneg }

/--
Once all teardowns are over, the table has exactly one entry for each
connection, and servers can register, if and only if no connection of a
registered storage server has ever been closed.
-/
theorem oneEntryEach_iff_staysConnected
    (events : List RegistryEvent)
    (tornDown : (runFrom registryStep .empty events).AllTornDown) :
    let final := runFrom registryStep .empty events
    (final.OneEntryEach ∧ final.CanRegister) ↔
      GuardedRun registryStep SsRegistry.StaysConnected .empty events := by
  intro final
  constructor
  · rintro ⟨oneEach, _⟩
    by_contra disturbed
    obtain ⟨before, event, after, rfl, guarded, violated⟩ :=
      GuardedRun.exists_of_not disturbed
    have connected :=
      GuardedRun.invariant (fun _ _ connected stays => connected.step stays)
        AllConnected.empty guarded
    cases event with
    | hello => exact violated trivial
    | filesDone => exact violated trivial
    | teardown => exact violated trivial
    | disconnect fd =>
        obtain ⟨address, leftOver⟩ :=
          connected.leftOver (not_not.mp violated)
        have still :
            LeftOver address
              (runFrom registryStep
                ((runFrom registryStep .empty before).disconnect fd) after) :=
          runFrom_invariant (fun _ event leftOver => leftOver.step event)
            leftOver after
        have reached :
            runFrom registryStep
                ((runFrom registryStep .empty before).disconnect fd) after =
              final := by
          simp only [final, runFrom_append, runFrom_cons]
          rfl
        exact (reached ▸ still).not_oneEntryEach tornDown oneEach
  · intro guarded
    have connected :=
      GuardedRun.invariant (fun _ _ connected stays => connected.step stays)
        AllConnected.empty guarded
    exact ⟨connected.oneEntryEach, connected.canRegister⟩

/-- A storage server connects on a descriptor. -/
def connects (fd : Int) : RegistryEvent :=
  .hello fd (str "10.0.0.1") 7000 (str "10.0.0.7") 9001

/-- Two storage servers, one of which has sent its files. -/
def twoServers : List RegistryEvent :=
  [connects 4, .filesDone 4,
    .hello 5 (str "10.0.0.1") 7000 (str "10.0.0.8") 9001]

theorem oneEntryEach_twoServers :
    let final := runFrom registryStep .empty twoServers
    final.OneEntryEach ∧ final.CanRegister :=
  (oneEntryEach_iff_staysConnected twoServers (by decide +kernel)).mpr
    (by decide +kernel)

/-- A storage server that connects and closes its connection. -/
def closedOnce : List RegistryEvent :=
  [connects 4, .filesDone 4, .disconnect 4, .teardown 4]

/-- Nobody is connected, and the entry is still in the table. -/
theorem entry_left_closedOnce :
    let final := runFrom registryStep .empty closedOnce
    final.AllTornDown ∧ final.connections = [] ∧
      final.servers.map (·.sockfd) = [-1] ∧ ¬final.OneEntryEach := by
  have run :
      let final := runFrom registryStep .empty closedOnce
      final.connections = [] ∧ final.servers.map (·.sockfd) = [-1] := by
    decide +kernel
  obtain ⟨nobody, left⟩ := run
  refine ⟨?_, nobody, left, ?_⟩
  · intro conn member
    rw [nobody] at member
    cases member
  · intro oneEach
    have lengths := oneEach.length_eq
    have entries := congrArg List.length left
    simp [nobody] at lengths entries
    simp [lengths] at entries

end DistributedDocs
