import DistributedDocs.LateUpdates
import DistributedDocs.Numerals
import Mathlib.Algebra.BigOperators.Group.List.Basic
import Mathlib.Algebra.Group.Prod
import Mathlib.Algebra.Order.BigOperators.Group.List

namespace DistributedDocs

/-!
# The load of a storage server, kept and recomputed

`ns_recalculate_server_load_locked` counts the entries that are homed on a
storage server.  `CREATE`, `DELETE` and `WRITE_COMPLETE` adjust the two totals
instead.  The adjustments agree with the count until an entry leaves the server
or changes its size by a message of another server.
-/

/-- The entries `ns_recalculate_server_load_locked` counts for a server. -/
def homedOn (ss : StorageServerInfo) (file : FileMetadata) : Bool :=
  !file.isDirectory &&
    (strncmpEq file.ssIp ss.clientIp maxIpLength &&
      file.ssPort = ss.clientPort)

/-- The totals of the server are those that a recount would give. -/
def LoadExact (address : Nat) (ns : NameServer) : Prop :=
  nsRecalculateServerLoad address ns = ns

/-- The connected storage server with this address. -/
def connectedServer (address : Nat) (ns : NameServer) :
    Option StorageServerInfo :=
  ns.storageServers.find? fun ss => ss.address = address && ss.isAlive

/-- What happens at the name server; every step is complete. -/
inductive LoadStep where
  | command (now : Int) (username : CString) (command : NsCommand)
  | writeComplete
      (now : Int)
      (address : Nat)
      (filename : CString)
      (size words chars : Nat)
  | sync (now : Int) (address : Nat) (msgs : List (List CString))
  | connect (ss : StorageServerInfo)
  | lose (address : Nat)
  deriving DecidableEq

/-- `ns_register_storage_server`; no address in use is given out again. -/
def connectServer (ss : StorageServerInfo) (ns : NameServer) : NameServer :=
  if ns.storageServers.any fun info =>
      info.address = ss.address ||
        (info.isAlive &&
          (info.clientIp = ss.clientIp && info.clientPort = ss.clientPort))
  then ns
  else
    { ns with
      storageServers :=
        ns.storageServers ++
          [{ ss with isAlive := true, totalBytes := 0, totalFiles := 0 }] }

/-- `SS_HAS_FILE` messages, each recorded or refused. -/
def syncFiles
    (now : Int)
    (ss : StorageServerInfo)
    (msgs : List (List CString))
    (ns : NameServer) : NameServer :=
  msgs.foldl
    (fun ns msg =>
      match applyHasFile now ss msg ns with
      | .ok after => after
      | .error _ => ns)
    ns

/-- One step of the name server. -/
def loadStep
    {World : Type}
    (backend : Backend World)
    (state : NsState World) : LoadStep → NsState World
  | .command now username command =>
      nsStep backend state (.command now username command)
  | .writeComplete now address filename size words chars =>
      match connectedServer address state.ns with
      | some ss =>
          state.onRegistry
            (applyWriteComplete now ss
              [str "WRITE_COMPLETE", filename, decimal size, decimal words,
                decimal chars])
      | none => state
  | .sync now address msgs =>
      match connectedServer address state.ns with
      | some ss =>
          state.onRegistry fun ns =>
            nsRecalculateServerLoad address (syncFiles now ss msgs ns)
      | none => state
  | .connect ss => state.onRegistry (connectServer ss)
  | .lose address =>
      state.onRegistry
        (changeServer address fun ss =>
          { ss with isAlive := false, sockfd := -1 })

/-- Whether an `SS_HAS_FILE` message is recorded, if there is room. -/
def isRecorded (hasFile : HasFile) : Bool :=
  validateFilename hasFile.filename &&
    (hasFile.owner = [] || validateUsername hasFile.owner)

/-- No message of another server names a file that is homed on this one. -/
def takesNothing
    (ss : StorageServerInfo)
    (msgs : List (List CString))
    (ns : NameServer) : Bool :=
  msgs.all fun msg =>
    (hasFileOf msg).all fun hasFile =>
      !isRecorded hasFile ||
        (entryNamed hasFile.filename ns).all fun file => !homedOn ss file

/-- The change of the kept total, and of the recount, by a `WRITE_COMPLETE`. -/
def countsAlike
    (ss : StorageServerInfo)
    (sender : Nat)
    (size : Int)
    (file : FileMetadata) : Bool :=
  let isHere :=
    strncmpEq file.ssIp ss.clientIp maxIpLength &&
      file.ssPort = ss.clientPort
  if !isHere then
    true
  else if sender = ss.address then
    if file.isDirectory then
      (resized (toLongLong (size - file.size)) ss).totalBytes = ss.totalBytes
    else
      0 ≤ file.size
  else
    file.isDirectory || size = max 0 file.size

/-- The sizes of the files on a server add up to no more than `LLONG_MAX`. -/
def bytesFit (ss : StorageServerInfo) (files : List FileMetadata) : Bool :=
  ((files.filter (homedOn ss)).map fun file => max 0 file.size).sum ≤
    9223372036854775807

/-- The condition on one step that concerns the step itself. -/
def CountsStep
    {World : Type}
    (address : Nat)
    (state : NsState World) : LoadStep → Prop
  | .sync _ sender msgs =>
      sender = address ∨
        (connectedServer address state.ns).all fun ss =>
          takesNothing ss msgs state.ns
  | .writeComplete _ sender filename size _ _ =>
      (connectedServer sender state.ns).isSome →
        (connectedServer address state.ns).all fun ss =>
          (entryNamed filename state.ns).all
            (countsAlike ss sender (atoll (decimal size)))
  | _ => True

instance
    {World : Type}
    (address : Nat)
    (state : NsState World)
    (step : LoadStep) :
    Decidable (CountsStep address state step) := by
  cases step <;> unfold CountsStep <;> infer_instance

/-- The condition on a step, for the server at an address. -/
structure KeepsLoad
    {World : Type}
    (address : Nat)
    (state : NsState World)
    (step : LoadStep) : Prop where
  fits :
    (connectedServer address state.ns).all fun ss =>
      bytesFit ss state.ns.files
  counts : CountsStep address state step

instance
    {World : Type}
    (address : Nat)
    (state : NsState World)
    (step : LoadStep) :
    Decidable (KeepsLoad address state step) :=
  decidable_of_iff (_ ∧ _) ⟨fun ⟨fits, counts⟩ => ⟨fits, counts⟩,
    fun ⟨fits, counts⟩ => ⟨fits, counts⟩⟩

/--
Once a connected server has synchronized its files, its totals are exact as
long as it stays connected.
-/
def ExactAfterSync
    {World : Type}
    (backend : Backend World)
    (world : World)
    (address : Nat)
    (before : List LoadStep)
    (now : Int)
    (msgs : List (List CString))
    (after : List LoadStep) : Prop :=
  let reached := runFrom (loadStep backend) ⟨nsInit, world⟩ before
  (connectedServer address reached.ns).isSome →
    (∀ step ∈ after, step ≠ .lose address) →
      LoadExact address
        (runFrom (loadStep backend) reached
          (.sync now address msgs :: after)).ns

/-! ## The recount as a sum -/

/-- What an entry adds to the two totals of a server. -/
def weight (ss : StorageServerInfo) (file : FileMetadata) : Int × Int :=
  if homedOn ss file then (1, max 0 file.size) else 0

/-- The totals of a server are those of a recount, which adds in 64 bits. -/
def Balanced (ss : StorageServerInfo) (files : List FileMetadata) : Prop :=
  ss.totalFiles = (files.map (weight ss)).sum.1 ∧
    ss.totalBytes = max 0 (toLongLong (files.map (weight ss)).sum.2)

instance
    (ss : StorageServerInfo)
    (files : List FileMetadata) :
    Decidable (Balanced ss files) :=
  inferInstanceAs (Decidable (_ ∧ _))

/-- The totals of a server are the sums over the entries. -/
structure Accounted
    (ss : StorageServerInfo)
    (files : List FileMetadata) : Prop where
  totals : (ss.totalFiles, ss.totalBytes) = (files.map (weight ss)).sum
  fits : FitsLongLong (files.map (weight ss)).sum.2

theorem sum_weight (ss : StorageServerInfo) (files : List FileMetadata) :
    (files.map (weight ss)).sum =
      (((files.filter (homedOn ss)).length : Int),
        ((files.filter (homedOn ss)).map fun file => max 0 file.size).sum) := by
  induction files with
  | nil =>
      rfl
  | cons file rest inductionHypothesis =>
      rw [List.map_cons, List.sum_cons, inductionHypothesis]
      cases homed : homedOn ss file with
      | false =>
          simp [weight, homed]
      | true =>
          simp [weight, homed, add_comm]

theorem sum_nonneg (ss : StorageServerInfo) (files : List FileMetadata) :
    0 ≤ ((files.map (weight ss)).sum).1 ∧
      0 ≤ ((files.map (weight ss)).sum).2 := by
  rw [sum_weight]
  refine ⟨Int.natCast_nonneg _, List.sum_nonneg fun total listed => ?_⟩
  obtain ⟨file, _, rfl⟩ := List.mem_map.mp listed
  exact le_max_left _ _

/-- The server with the totals of a recount. -/
def recounted (ns : NameServer) (ss : StorageServerInfo) : StorageServerInfo :=
  { ss with
    totalFiles := (ns.files.filter (homedOn ss)).length
    totalBytes :=
      max 0 (toLongLong
        ((ns.files.filter (homedOn ss)).map fun file =>
          max 0 file.size).sum) }

/-- The loop of the recount, from a sum that is cut already. -/
theorem foldl_toLongLong (sizes : List Int) (bytes : Int) :
    sizes.foldl (fun bytes size => toLongLong (bytes + size))
        (toLongLong bytes) =
      toLongLong (bytes + sizes.sum) := by
  induction sizes generalizing bytes with
  | nil =>
      rw [List.foldl_nil, List.sum_nil, add_zero]
  | cons size rest inductionHypothesis =>
      have next :
          toLongLong (toLongLong bytes + size) = toLongLong (bytes + size) :=
        Int.bmod_add_bmod
      rw [List.foldl_cons, next, inductionHypothesis, List.sum_cons, add_assoc]

theorem nsRecalculateServerLoad_eq (address : Nat) (ns : NameServer) :
    nsRecalculateServerLoad address ns =
      changeServer address (recounted ns) ns := by
  have looped (sizes : List Int) :
      sizes.foldl (fun bytes size => toLongLong (bytes + size)) 0 =
        toLongLong sizes.sum := by
    have summed := foldl_toLongLong sizes 0
    rwa [zero_add] at summed
  unfold nsRecalculateServerLoad recounted
  simp only [looped]
  rfl

theorem recounted_eq_iff {ns : NameServer} {ss : StorageServerInfo} :
    recounted ns ss = ss ↔ Balanced ss ns.files := by
  rw [Balanced, sum_weight, recounted]
  obtain ⟨address, clientIp, short, clientPort, sockfd, isAlive, bytes,
    files⟩ := ss
  simp only [StorageServerInfo.mk.injEq, true_and]
  constructor
  · rintro ⟨sameBytes, sameFiles⟩
    exact ⟨sameFiles.symm, sameBytes.symm⟩
  · rintro ⟨sameFiles, sameBytes⟩
    exact ⟨sameBytes.symm, sameFiles.symm⟩

/-- A recount changes nothing exactly if every entry of the address is exact. -/
theorem loadExact_iff {address : Nat} {ns : NameServer} :
    LoadExact address ns ↔
      ∀ ss ∈ ns.storageServers, ss.address = address →
        Balanced ss ns.files := by
  have sameList :
      LoadExact address ns ↔
        (nsRecalculateServerLoad address ns).storageServers =
          ns.storageServers := by
    constructor
    · exact congrArg NameServer.storageServers
    · intro same
      change
        { ns with
          storageServers :=
            (nsRecalculateServerLoad address ns).storageServers } = ns
      rw [same]
  rw [sameList, nsRecalculateServerLoad_eq, changeServer]
  constructor
  · intro same ss member sameAddress
    rw [← List.map_id ns.storageServers, List.map_map] at same
    have kept := List.map_inj_left.mp same ss member
    simp only [Function.comp_apply, id_eq, if_pos sameAddress] at kept
    exact recounted_eq_iff.mp kept
  · intro exact
    rw [← List.map_id ns.storageServers, List.map_map]
    refine List.map_inj_left.mpr fun ss member => ?_
    simp only [Function.comp_apply, id_eq]
    split
    · next sameAddress =>
      exact recounted_eq_iff.mpr (exact ss member sameAddress)
    · rfl

/-- A sum that fits is what the recount gives. -/
theorem Accounted.balanced
    {ss : StorageServerInfo}
    {files : List FileMetadata}
    (accounted : Accounted ss files) :
    Balanced ss files := by
  obtain ⟨sameFiles, sameBytes⟩ := Prod.mk.inj accounted.totals
  refine ⟨sameFiles, ?_⟩
  rw [toLongLong_of_fits accounted.fits,
    max_eq_right (sum_nonneg ss files).2]
  exact sameBytes

/-- As long as the sizes fit, the totals of the recount are the sums. -/
theorem Balanced.accounted
    {ss : StorageServerInfo}
    {files : List FileMetadata}
    (balanced : Balanced ss files)
    (fit : bytesFit ss files = true) :
    Accounted ss files := by
  have nonneg := sum_nonneg ss files
  have fits : FitsLongLong (files.map (weight ss)).sum.2 := by
    rw [sum_weight] at nonneg ⊢
    rw [bytesFit, decide_eq_true_eq] at fit
    exact ⟨(by decide : (-9223372036854775808 : Int) ≤ 0).trans nonneg.2, fit⟩
  refine ⟨Prod.ext balanced.1 ?_, fits⟩
  rw [balanced.2, toLongLong_of_fits fits, max_eq_right nonneg.2]

/-- Changing one item changes the sum by the difference of its weights. -/
theorem sum_map_modify
    {α β : Type*}
    [AddCommMonoid β]
    {items : List α}
    {index : Nat}
    {item : α}
    (held : items[index]? = some item)
    (weigh : α → β)
    (change : α → α) :
    ((items.modify index change).map weigh).sum + weigh item =
      (items.map weigh).sum + weigh (change item) := by
  induction items generalizing index with
  | nil =>
      simp at held
  | cons head rest inductionHypothesis =>
      cases index with
      | zero =>
          obtain rfl : head = item := by simpa using held
          simp only [List.modify_zero_cons, List.map_cons, List.sum_cons]
          ac_rfl
      | succ index =>
          have later := inductionHypothesis (by simpa using held)
          simp only [List.modify_succ_cons, List.map_cons, List.sum_cons,
            add_assoc, later]

theorem map_modify_same
    {α β : Type*}
    {weigh : α → β}
    {change : α → α}
    (same : ∀ item, weigh (change item) = weigh item)
    (index : Nat)
    (items : List α) :
    (items.modify index change).map weigh = items.map weigh := by
  refine List.ext_getElem? fun place => ?_
  rw [List.getElem?_map, List.getElem?_map, List.getElem?_modify]
  cases items[place]? with
  | none =>
      rfl
  | some item =>
      by_cases here : index = place
      · simp [here, same]
      · simp [here]

theorem mem_modify
    {α : Type*}
    {items : List α}
    {index : Nat}
    {change : α → α}
    {item : α}
    (member : item ∈ items.modify index change) :
    item ∈ items ∨ ∃ former ∈ items, item = change former := by
  obtain ⟨place, held⟩ := List.getElem?_of_mem member
  rw [List.getElem?_modify, Option.map_eq_map, Option.map_eq_some_iff] at held
  obtain ⟨former, formerHeld, rfl⟩ := held
  have present := List.mem_of_getElem? formerHeld
  split
  · exact .inr ⟨former, present, rfl⟩
  · exact .inl present

/-! ## Servers that stay, and their totals -/

/-- A change of a server's totals. -/
structure KeepsEndpoint
    (change : StorageServerInfo → StorageServerInfo) : Prop where
  address : ∀ ss, (change ss).address = ss.address
  clientIp : ∀ ss, (change ss).clientIp = ss.clientIp
  clientPort : ∀ ss, (change ss).clientPort = ss.clientPort
  isAlive : ∀ ss, (change ss).isAlive = ss.isAlive

namespace KeepsEndpoint

theorem same : KeepsEndpoint fun ss => ss :=
  ⟨fun _ => rfl, fun _ => rfl, fun _ => rfl, fun _ => rfl⟩

theorem comp
    {first second : StorageServerInfo → StorageServerInfo}
    (earlier : KeepsEndpoint first)
    (later : KeepsEndpoint second) :
    KeepsEndpoint (second ∘ first) where
  address ss := (later.address _).trans (earlier.address ss)
  clientIp ss := (later.clientIp _).trans (earlier.clientIp ss)
  clientPort ss := (later.clientPort _).trans (earlier.clientPort ss)
  isAlive ss := (later.isAlive _).trans (earlier.isAlive ss)

/-- A change of the server at one address. -/
theorem at_address
    {change : StorageServerInfo → StorageServerInfo}
    (keeps : KeepsEndpoint change)
    (address : Nat) :
    KeepsEndpoint fun ss => if ss.address = address then change ss else ss where
  address ss := by
    split
    · exact keeps.address ss
    · rfl
  clientIp ss := by
    split
    · exact keeps.clientIp ss
    · rfl
  clientPort ss := by
    split
    · exact keeps.clientPort ss
    · rfl
  isAlive ss := by
    split
    · exact keeps.isAlive ss
    · rfl

theorem homedOn_eq
    {change : StorageServerInfo → StorageServerInfo}
    (keeps : KeepsEndpoint change)
    (ss : StorageServerInfo)
    (file : FileMetadata) :
    homedOn (change ss) file = homedOn ss file := by
  rw [homedOn, keeps.clientIp, keeps.clientPort, homedOn]

theorem weight_eq
    {change : StorageServerInfo → StorageServerInfo}
    (keeps : KeepsEndpoint change)
    (ss : StorageServerInfo) :
    weight (change ss) = weight ss := by
  funext file
  rw [weight, keeps.homedOn_eq, weight]

end KeepsEndpoint

/-- Addresses are unique, and so are the endpoints of connected servers. -/
structure ServersSound (servers : List StorageServerInfo) : Prop where
  addresses : (servers.map StorageServerInfo.address).Nodup
  endpoints :
    ∀ first ∈ servers, ∀ second ∈ servers,
      first.isAlive = true → second.isAlive = true →
        first.clientIp = second.clientIp →
          first.clientPort = second.clientPort →
            first.address = second.address

theorem ServersSound.eq_of_address
    {servers : List StorageServerInfo}
    (sound : ServersSound servers)
    {first second : StorageServerInfo}
    (present : first ∈ servers)
    (member : second ∈ servers)
    (same : first.address = second.address) :
    first = second :=
  List.inj_on_of_nodup_map sound.addresses present member same

theorem ServersSound.mapped
    {servers : List StorageServerInfo}
    {change : StorageServerInfo → StorageServerInfo}
    (sound : ServersSound servers)
    (keeps : KeepsEndpoint change) :
    ServersSound (servers.map change) where
  addresses := by
    have same :
        (servers.map change).map StorageServerInfo.address =
          servers.map StorageServerInfo.address := by
      rw [List.map_map]
      exact List.map_congr_left fun ss _ => keeps.address ss
    rw [same]
    exact sound.addresses
  endpoints first firstMember second secondMember := by
    obtain ⟨earlier, present, rfl⟩ := List.mem_map.mp firstMember
    obtain ⟨other, otherPresent, rfl⟩ := List.mem_map.mp secondMember
    simp only [keeps.isAlive, keeps.clientIp, keeps.clientPort, keeps.address]
    exact sound.endpoints earlier present other otherPresent

/--
The servers stay, and a connected server at the address whose totals are the
sums before has those after.
-/
def LoadKept (address : Nat) (before after : NameServer) : Prop :=
  ∃ change,
    KeepsEndpoint change ∧
      after.storageServers = before.storageServers.map change ∧
        ∀ ss ∈ before.storageServers,
          ss.address = address → ss.isAlive = true →
            Accounted ss before.files → Accounted (change ss) after.files

/-- The same, with totals that a recount gives after. -/
def LoadBalanced (address : Nat) (before after : NameServer) : Prop :=
  ∃ change,
    KeepsEndpoint change ∧
      after.storageServers = before.storageServers.map change ∧
        ∀ ss ∈ before.storageServers,
          ss.address = address → ss.isAlive = true →
            Accounted ss before.files → Balanced (change ss) after.files

namespace LoadKept

variable
  {address : Nat}
  {first second third before after : NameServer}

theorem trans
    (earlier : LoadKept address first second)
    (later : LoadKept address second third) :
    LoadKept address first third := by
  obtain ⟨change, keeps, servers, kept⟩ := earlier
  obtain ⟨next, nextKeeps, nextServers, nextKept⟩ := later
  refine ⟨next ∘ change, keeps.comp nextKeeps, ?_, ?_⟩
  · rw [nextServers, servers, List.map_map]
  · intro ss member named isAlive accounted
    refine nextKept (change ss) ?_ ((keeps.address ss).trans named)
      ((keeps.isAlive ss).trans isAlive) (kept ss member named isAlive accounted)
    rw [servers]
    exact List.mem_map_of_mem member

/-- Sums that fit are what the recount gives. -/
theorem balanced
    (kept : LoadKept address before after) :
    LoadBalanced address before after := by
  obtain ⟨change, keeps, servers, accounts⟩ := kept
  exact ⟨change, keeps, servers, fun ss member named isAlive accounted =>
    (accounts ss member named isAlive accounted).balanced⟩

theorem serversSound
    (kept : LoadKept address before after)
    (sound : ServersSound before.storageServers) :
    ServersSound after.storageServers := by
  obtain ⟨change, keeps, servers, _⟩ := kept
  rw [servers]
  exact sound.mapped keeps

/-- The same servers, and entries that weigh the same. -/
theorem of_weights
    (servers : after.storageServers = before.storageServers)
    (weights :
      ∀ ss ∈ before.storageServers, ss.address = address →
        ss.isAlive = true →
          (after.files.map (weight ss)).sum =
            (before.files.map (weight ss)).sum) :
    LoadKept address before after := by
  refine ⟨fun ss => ss, .same, by simp [servers], ?_⟩
  intro ss member named isAlive accounted
  have same := weights ss member named isAlive
  exact ⟨accounted.totals.trans same.symm, same ▸ accounted.fits⟩

theorem of_same
    (servers : after.storageServers = before.storageServers)
    (files : after.files = before.files) :
    LoadKept address before after :=
  of_weights servers fun _ _ _ _ => by rw [files]

theorem of_onlyCache
    (only : OnlyCacheChanged before after) :
    LoadKept address before after :=
  of_same only.storageServers only.files

end LoadKept

/-- A change of an entry that leaves what it weighs. -/
structure KeepsHolding (change : FileMetadata → FileMetadata) : Prop where
  isDirectory : ∀ file, (change file).isDirectory = file.isDirectory
  ssIp : ∀ file, (change file).ssIp = file.ssIp
  ssPort : ∀ file, (change file).ssPort = file.ssPort
  size : ∀ file, (change file).size = file.size

namespace KeepsHolding

theorem weight_eq
    {change : FileMetadata → FileMetadata}
    (keeps : KeepsHolding change)
    (ss : StorageServerInfo)
    (file : FileMetadata) :
    weight ss (change file) = weight ss file := by
  have homed : homedOn ss (change file) = homedOn ss file := by
    rw [homedOn, keeps.isDirectory, keeps.ssIp, keeps.ssPort, homedOn]
  rw [weight, homed, keeps.size, weight]

theorem addAccess
    (user : CString)
    (grantRead grantWrite : Bool) :
    KeepsHolding fun file =>
      (fileAddAccess file user grantRead grantWrite).2 := by
  constructor <;> intro file <;>
    obtain ⟨readers, writers, same⟩ :=
      fileAddAccess_eq file user grantRead grantWrite <;>
    simp only [same]

theorem removeAccess (user : CString) :
    KeepsHolding fun file => (fileRemoveAccess file user).2 :=
  ⟨fun _ => rfl, fun _ => rfl, fun _ => rfl, fun _ => rfl⟩

theorem accessed
    (now : Int)
    (username : CString) :
    KeepsHolding (accessedMetadata now username) :=
  ⟨fun _ => rfl, fun _ => rfl, fun _ => rfl, fun _ => rfl⟩

theorem located
    (now : Int)
    (username operation : CString) :
    KeepsHolding (locatedMetadata now username operation) := by
  constructor <;> intro file <;> unfold locatedMetadata <;> split <;> rfl

theorem renamed
    (now : Int)
    (username : CString)
    (plan : List MovePlanEntry) :
    KeepsHolding fun file => plan.foldl (renamedEntry now username) file := by
  induction plan with
  | nil =>
      exact ⟨fun _ => rfl, fun _ => rfl, fun _ => rfl, fun _ => rfl⟩
  | cons entry rest inductionHypothesis =>
      have once : KeepsHolding fun file => renamedEntry now username file entry := by
        constructor <;> intro file <;> unfold renamedEntry <;> split <;> rfl
      exact
        ⟨fun file => (inductionHypothesis.isDirectory _).trans
            (once.isDirectory file),
          fun file => (inductionHypothesis.ssIp _).trans (once.ssIp file),
          fun file => (inductionHypothesis.ssPort _).trans (once.ssPort file),
          fun file => (inductionHypothesis.size _).trans (once.size file)⟩

end KeepsHolding

namespace LoadKept

variable
  {address : Nat}
  {before after : NameServer}

theorem of_modify
    {index : Nat}
    {change : FileMetadata → FileMetadata}
    (servers : after.storageServers = before.storageServers)
    (files : after.files = before.files.modify index change)
    (keeps : KeepsHolding change) :
    LoadKept address before after :=
  of_weights servers fun ss _ _ _ => by
    rw [files, map_modify_same (keeps.weight_eq ss)]

theorem changeFile
    (index : Nat)
    {change : FileMetadata → FileMetadata}
    (keeps : KeepsHolding change)
    (ns : NameServer) :
    LoadKept address ns (changeFile index change ns) :=
  of_modify rfl rfl keeps

/-- The totals that are exact are not negative, so they are not clamped. -/
theorem select (ns : NameServer) :
    LoadKept address ns (nsSelectStorageServerBalanced ns).2 := by
  have servers := storageServers_select ns
  have keeps : KeepsEndpoint clampLoads := by
    constructor <;> intro ss <;> unfold clampLoads <;> split <;> rfl
  refine ⟨clampLoads, keeps, servers, fun ss member named isAlive accounted => ?_⟩
  have sumNonneg := sum_nonneg ss ns.files
  rw [← accounted.totals] at sumNonneg
  constructor
  · rw [files_select, keeps.weight_eq, ← accounted.totals, clampLoads,
      if_pos isAlive, max_eq_right sumNonneg.1, max_eq_right sumNonneg.2]
  · rw [files_select, keeps.weight_eq]
    exact accounted.fits

end LoadKept

/-! ## Commands -/

section Commands

theorem storageServers_registerFile
    (filename : CString)
    (file : FileMetadata)
    (ns : NameServer) :
    (registerFile filename file ns).storageServers = ns.storageServers := by
  unfold registerFile
  exact (onlyCacheChanged_fileCacheStore _ _ _).storageServers

/-- A new file is counted on the server `CREATE` has chosen for it. -/
theorem LoadKept.created
    {address : Nat}
    {ns : NameServer}
    (sound : ServersSound ns.storageServers)
    {target : StorageServerInfo}
    (member : target ∈ ns.storageServers)
    (isAlive : target.isAlive = true)
    (filename : CString)
    {file : FileMetadata}
    (isFile : file.isDirectory = false)
    (ssIp : file.ssIp = target.clientIp)
    (ssPort : file.ssPort = target.clientPort)
    (empty : file.size = 0) :
    LoadKept address ns
      (changeServer target.address
        (fun ss => { ss with totalFiles := ss.totalFiles + 1 })
        (registerFile filename file ns)) := by
  have counts :
      KeepsEndpoint fun ss : StorageServerInfo =>
        { ss with totalFiles := ss.totalFiles + 1 } :=
    ⟨fun _ => rfl, fun _ => rfl, fun _ => rfl, fun _ => rfl⟩
  have keeps := counts.at_address target.address
  refine ⟨_, keeps, ?_, fun ss present _ alive accounted => ?_⟩
  · rw [changeServer, storageServers_registerFile]
  · have files :
        (changeServer target.address
            (fun ss => { ss with totalFiles := ss.totalFiles + 1 })
            (registerFile filename file ns)).files =
          ns.files ++ [{ file with document := ns.nextDocument }] :=
      files_registerFile filename file ns
    have homed :
        homedOn ss { file with document := ns.nextDocument } = true ↔
          ss.address = target.address := by
      simp only [homedOn, isFile, ssIp, ssPort, Bool.not_false, Bool.true_and,
        Bool.and_eq_true, strncmpEq_iff target.clientIp_short,
        decide_eq_true_eq]
      constructor
      · rintro ⟨sameIp, samePort⟩
        exact (sound.endpoints target member ss present isAlive alive sameIp
          samePort).symm
      · intro same
        obtain rfl := sound.eq_of_address present member same
        exact ⟨rfl, rfl⟩
    have sum :
        ((ns.files ++ [{ file with document := ns.nextDocument }]).map
            (weight ss)).sum =
          (ss.totalFiles + (if ss.address = target.address then 1 else 0),
            ss.totalBytes) := by
      rw [List.map_append, List.sum_append, ← accounted.totals,
        List.map_singleton, List.sum_singleton, weight]
      by_cases here : ss.address = target.address
      · rw [if_pos (homed.mpr here), if_pos here]
        simp [empty]
      · rw [if_neg (here ∘ homed.mp), if_neg here]
        simp
    have fits := accounted.fits
    rw [← accounted.totals] at fits
    constructor
    · rw [keeps.weight_eq, files, sum]
      split
      · rfl
      · simp
    · rw [keeps.weight_eq, files, sum]
      exact fits

/-! ### Removing entries -/

theorem storageServers_remove
    (filename : CString)
    (ns : NameServer) :
    (removeFileMetadataLocked filename ns).2.storageServers =
      ns.storageServers := by
  unfold removeFileMetadataLocked
  split
  · rfl
  · simp only
    split <;> rfl

/-- The removed entry and those that remain are those of before. -/
theorem perm_remove
    {ns : NameServer}
    (coherent : Coherent ns)
    {filename : CString}
    {hole : Nat}
    {file : FileMetadata}
    (found : plainScan ns.files filename = some hole)
    (held : ns.files[hole]? = some file) :
    (removeFileMetadataLocked filename ns).1 = true ∧
      ns.files.Perm (file :: (removeFileMetadataLocked filename ns).2.files) := by
  rw [coherent.removeFileMetadataLocked_eq]
  obtain ⟨bound, rfl⟩ := List.getElem?_eq_some_iff.mp held
  split
  · next other last foundOther isLast =>
    obtain rfl := Option.some.inj (found.symm.trans foundOther)
    refine ⟨rfl, ?_⟩
    exact ((List.Perm.cons _ (filledHole_perm isLast bound)).trans
      (List.getElem_cons_eraseIdx_perm bound)).symm
  · next notBoth =>
    have nonempty : ns.files ≠ [] := List.ne_nil_of_length_pos (by omega)
    exact absurd (List.getLast?_eq_some_getLast nonempty)
      (notBoth hole _ found)

theorem keepsEndpoint_unloaded (size : Int) :
    KeepsEndpoint (unloaded size) :=
  ⟨fun _ => rfl, fun _ => rfl, fun _ => rfl, fun _ => rfl⟩

theorem unloaded_of_sum
    {ss : StorageServerInfo}
    {size : Int}
    {rest : Int × Int}
    (total : (ss.totalFiles, ss.totalBytes) = (1, size) + rest)
    (sizeNonneg : 0 ≤ size)
    (restNonneg : 0 ≤ rest.1 ∧ 0 ≤ rest.2) :
    ((unloaded size ss).totalFiles, (unloaded size ss).totalBytes) = rest := by
  obtain ⟨files, bytes⟩ := rest
  simp only [Prod.mk_add_mk, Prod.mk.injEq] at total restNonneg
  simp only [unloaded, total, Prod.mk.injEq]
  constructor
  · rw [if_pos (by omega)]
    omega
  · split
    · rw [if_pos (by omega)]
      omega
    · omega

/-- A planned removal takes an entry's weight from the server it is homed on. -/
def Unloads
    (address : Nat)
    (ns : NameServer)
    (entry : DeletePlanEntry) : Prop :=
  ∀ file ∈ ns.files, file.filename = entry.path →
    entry.size = max 0 file.size ∧
      ∀ ss ∈ ns.storageServers, ss.address = address →
        ss.isAlive = true →
          (homedOn ss file = true ↔ entry.ss = some ss.address)

/-- Fewer entries, and the same servers. -/
theorem Unloads.of_kept
    {address : Nat}
    {before after : NameServer}
    {entry : DeletePlanEntry}
    (unloads : Unloads address before entry)
    (kept : LoadKept address before after)
    (files : ∀ file ∈ after.files, file ∈ before.files) :
    Unloads address after entry := by
  obtain ⟨change, keeps, servers, _⟩ := kept
  intro file present name
  obtain ⟨size, homed⟩ := unloads file (files file present) name
  refine ⟨size, fun ss member named isAlive => ?_⟩
  rw [servers] at member
  obtain ⟨earlier, earlierMember, rfl⟩ := List.mem_map.mp member
  rw [keeps.address] at named ⊢
  rw [keeps.isAlive] at isAlive
  rw [keeps.homedOn_eq]
  exact homed earlier earlierMember named isAlive

/-- An entry that is removed leaves the server its plan names. -/
theorem LoadKept.applyDeleteEntry
    {address : Nat}
    {ns : NameServer}
    (registry : Registry ns)
    {entry : DeletePlanEntry}
    (planned : Unloads address ns entry) :
    LoadKept address ns (applyDeleteEntry ns entry) := by
  have servers := storageServers_remove entry.path ns
  cases scanned : plainScan ns.files entry.path with
  | none =>
      have unchanged :
          removeFileMetadataLocked entry.path ns = (false, ns) := by
        rw [registry.coherent.removeFileMetadataLocked_eq, scanned]
      rw [DistributedDocs.applyDeleteEntry, unchanged]
      exact .of_same rfl rfl
  | some hole =>
      obtain ⟨file, held, name⟩ := plainScan_some scanned
      obtain ⟨removed, remaining⟩ := perm_remove registry.coherent scanned held
      obtain ⟨size, homed⟩ := planned file (List.mem_of_getElem? held) name
      unfold DistributedDocs.applyDeleteEntry
      generalize removeFileMetadataLocked entry.path ns = pair
        at servers removed remaining ⊢
      obtain ⟨found, left⟩ := pair
      obtain rfl : found = true := removed
      have sums (ss : StorageServerInfo) :
          (ns.files.map (weight ss)).sum =
            weight ss file + (left.files.map (weight ss)).sum := by
        rw [(remaining.map (weight ss)).sum_eq, List.map_cons, List.sum_cons]
      cases known : entry.ss with
      | none =>
          refine .of_weights servers fun ss member named isAlive => ?_
          have elsewhere : homedOn ss file ≠ true := fun here => by
            simp [known] at homed
            exact absurd here (by simp [homed ss member named isAlive])
          rw [sums, weight, if_neg elsewhere, zero_add]
      | some home =>
          have keeps :=
            (keepsEndpoint_unloaded entry.size).at_address home
          refine ⟨_, keeps, ?_, fun ss member named isAlive accounted => ?_⟩
          · rw [← servers]
            rfl
          · obtain ⟨totals, fits⟩ := accounted
            rw [sums] at totals fits
            have nonneg := sum_nonneg ss left.files
            have taken : 0 ≤ (weight ss file).2 := by
              unfold weight
              split
              · exact le_max_left 0 file.size
              · exact le_refl 0
            constructor
            · rw [keeps.weight_eq]
              change _ = (left.files.map (weight ss)).sum
              have isHere := homed ss member named isAlive
              rw [known, Option.some.injEq] at isHere
              split
              · next here =>
                rw [weight, if_pos (isHere.mpr here.symm), ← size] at totals
                exact unloaded_of_sum totals
                  (size ▸ le_max_left 0 file.size) nonneg
              · next away =>
                rw [weight, if_neg fun here => away (isHere.mp here).symm,
                  zero_add] at totals
                exact totals
            · rw [keeps.weight_eq]
              change FitsLongLong (left.files.map (weight ss)).sum.2
              obtain ⟨_, most⟩ := fits
              rw [Prod.snd_add] at most
              unfold FitsLongLong
              omega

theorem LoadKept.foldl_applyDeleteEntry
    {address : Nat}
    {ns : NameServer}
    (registry : Registry ns)
    (plan : List DeletePlanEntry)
    (planned : ∀ entry ∈ plan, Unloads address ns entry) :
    LoadKept address ns (plan.foldl DistributedDocs.applyDeleteEntry ns) := by
  induction plan generalizing ns with
  | nil =>
      exact .of_same rfl rfl
  | cons entry rest inductionHypothesis =>
      obtain ⟨next, members⟩ := registry.applyDeleteEntry entry
      have first :=
        LoadKept.applyDeleteEntry registry (planned entry (by simp))
      refine first.trans (inductionHypothesis next fun later listed => ?_)
      exact (planned later (List.mem_cons_of_mem entry listed)).of_kept first
        fun file present => ((members file).mp present).1

theorem clientIp_eq_of_strncmpEq
    {ip : CString}
    {first second : StorageServerInfo}
    (sameFirst : strncmpEq ip first.clientIp maxIpLength = true)
    (sameSecond : strncmpEq ip second.clientIp maxIpLength = true) :
    first.clientIp = second.clientIp := by
  refine (strncmpEq_iff first.clientIp_short).mp ?_
  simp only [strncmpEq, beq_iff_eq] at sameFirst sameSecond ⊢
  exact sameFirst.symm.trans sameSecond

/-- The entries of a plan of `DELETE` are homed where the plan says. -/
theorem PlannedDeletes.unloads
    {address : Nat}
    {start : NameServer}
    {username targetPath : CString}
    {target : FileMetadata}
    {plan : List DeletePlanEntry}
    (registry : Registry start)
    (sound : ServersSound start.storageServers)
    (planned : PlannedDeletes start username targetPath target plan)
    {entry : DeletePlanEntry}
    (listed : entry ∈ plan) :
    Unloads address start entry := by
  intro file present name
  obtain ⟨taken, isTaken, entryPlanned⟩ :=
    exists_of_forall₂ planned.entries listed
  obtain rfl :=
    eq_of_filename registry.coherent.names_nodup present
      (List.mem_of_mem_filter isTaken) (name.trans entryPlanned.path)
  refine ⟨entryPlanned.size, fun ss member named isAlive => ?_⟩
  cases folder : file.isDirectory with
  | true =>
      simp [homedOn, folder, entryPlanned.folder folder]
  | false =>
      obtain ⟨home, isHome, sent⟩ := entryPlanned.home folder
      obtain ⟨homeMember, homeAlive, sameIp, samePort⟩ := homeOf_some isHome
      rw [sent, Option.some.injEq, homedOn, folder, Bool.not_false,
        Bool.true_and, Bool.and_eq_true, decide_eq_true_eq]
      constructor
      · rintro ⟨ssIp, ssPort⟩
        exact sound.endpoints home homeMember ss member homeAlive isAlive
          (clientIp_eq_of_strncmpEq sameIp ssIp) (samePort.symm.trans ssPort)
      · intro same
        obtain rfl := sound.eq_of_address homeMember member same
        exact ⟨sameIp, samePort⟩

theorem storageServers_applyMove
    (now : Int)
    (username : CString)
    (plan : List MovePlanEntry)
    (ns : NameServer) :
    (applyMove now username plan ns).storageServers = ns.storageServers := by
  obtain ⟨_, _, _, _, moved⟩ := applyMove_frame plan ns
  rw [moved]

variable
  {World : Type}
  {backend : Backend World}
  {now : Int}
  {username : CString}
  {address : Nat}
  {start : NsState World}

/-- A refused `CREATE` takes out the entry it put in. -/
theorem LoadKept.createRefused
    {filename : CString}
    (target : StorageServerInfo)
    (registry : Registry start.ns)
    {looked : NsState World}
    (known : Looked start looked)
    (valid : validateFilename filename = true)
    (fresh : plainScan start.ns.files filename = none) :
    LoadKept address start.ns
      (removeFileMetadataLocked filename
        (registered now username filename target looked).ns).2 := by
  have sameFiles :=
    files_createRefused now username target registry known valid fresh
  refine (of_onlyCache known.onlyCache).trans ((select looked.ns).trans ?_)
  refine of_weights ?_ fun ss _ _ _ => ?_
  · rw [storageServers_remove]
    exact storageServers_registerFile _ _ _
  · rw [files_select, known.files_eq, sameFiles]

/-- Every command adjusts the totals as a recount would. -/
theorem loadKept_of_effect
    (registry : Registry start.ns)
    (sound : ServersSound start.ns.storageServers)
    {command : NsCommand}
    {final : NsState World}
    (effect : CommandEffect backend now username start command final) :
    LoadKept address start.ns final.ns := by
  have looked :
      ∀ {state : NsState World},
        Looked start state → LoadKept address start.ns state.ns :=
    fun known => .of_onlyCache known.onlyCache
  have changed :
      ∀ {state : NsState World} {after : NameServer} {index change},
        Looked start state →
          after.storageServers = state.ns.storageServers →
            after.files = state.ns.files.modify index change →
              KeepsHolding change → LoadKept address start.ns after :=
    fun known servers files keeps =>
      (looked known).trans (.of_modify servers files keeps)
  cases effect with
  | looked known =>
      exact looked known
  | unplaced known =>
      exact (looked known).trans (.select _)
  | createRefused known valid room fresh selected asking =>
      have kept := (onlyAsks_createOnStorage _ _).ns_eq asking
      rw [NsState.onRegistry, kept]
      exact .createRefused _ registry known valid fresh
  | created known valid room fresh selected asking =>
      have kept := (onlyAsks_createOnStorage _ _).ns_eq asking
      have chosen := (looked known).trans (.select _)
      rw [NsState.onRegistry, kept]
      obtain ⟨member, isAlive⟩ := mem_of_selected selected
      refine chosen.trans (.created (chosen.serversSound sound) member isAlive
        _ rfl ?_ rfl rfl)
      exact safeStrcpy_of_short (StorageServerInfo.clientIp_short _)
  | folder known valid room fresh =>
      refine (looked known).trans (.of_weights ?_ fun ss _ _ _ => ?_)
      · exact storageServers_registerFile _ _ _
      · simp only [NsState.onRegistry, files_registerFile, List.map_append,
          List.sum_append, List.map_singleton, List.sum_singleton]
        exact add_zero _
  | moveRefused known normalized planned renames =>
      have kept :=
        ns_of_staysWithin (sameRegistry_renameOnStorage [] _)
          (congrArg finalState renames)
      exact .of_onlyCache (kept ▸ known.onlyCache)
  | moved known normalized planned renames =>
      have kept :=
        ns_of_staysWithin (sameRegistry_renameOnStorage [] _)
          (congrArg finalState renames)
      have apart := planned.renamesApart registry.coherent.names_nodup
      rw [← known.files_eq] at apart
      obtain ⟨_, files⟩ := known.coherent.applyMove now username apart
      rw [finalState_ok] at kept
      rw [NsState.onRegistry, kept]
      refine (looked known).trans
        (.of_weights (storageServers_applyMove now username _ _)
          fun ss _ _ _ => ?_)
      rw [files, List.map_map]
      exact congrArg List.sum (List.map_congr_left fun file _ =>
        (KeepsHolding.renamed now username _).weight_eq ss file)
  | deleteRefused known planned deletes =>
      have kept :=
        ns_of_staysWithin (sameRegistry_deleteOnStorage _)
          (congrArg finalState deletes)
      exact .of_onlyCache (kept ▸ known.onlyCache)
  | deleted known planned deletes =>
      have kept :=
        ns_of_staysWithin (sameRegistry_deleteOnStorage _)
          (congrArg finalState deletes)
      rw [finalState_ok] at kept
      rw [NsState.onRegistry, kept]
      refine (looked known).trans
        (.foldl_applyDeleteEntry (registry.looked known) _ fun entry listed => ?_)
      rw [removalOrder, List.mem_insertionSort, List.mem_reverse] at listed
      exact (planned.unloads registry sound listed).of_kept (looked known)
        fun file present => known.files_eq ▸ present
  | copyAnswered known destination home asking =>
      have kept := (OnlyAsks.sendAndWait _ _).ns_eq asking
      exact .of_onlyCache (kept ▸ known.onlyCache)
  | copied known source destination home asking =>
      have kept := (OnlyAsks.sendAndWait _ _).ns_eq asking
      rw [NsState.onRegistry, kept]
      exact changed known rfl rfl (.accessed now username)
  | @located msg operation filename index file looked known entry =>
      have only :=
        onlyCacheChanged_fileCacheStore filename index
          (changeFile index (locatedMetadata now username operation) looked.ns)
      exact changed known only.storageServers only.files
        (.located now username operation)
  | requested known valid parsed entry =>
      exact (looked known).trans (.of_same rfl rfl)
  | @approveRefused type idField rest position index req file refusal before
      answered known request numbered isPending addressed entry asking =>
      have kept := (onlyAsks_approveOnStorage _ _).ns_eq asking
      rw [ungranted, NsState.onRegistry, kept]
      have given :
          LoadKept address start.ns (granted index position req before).ns :=
        changed known rfl rfl (.addAccess _ _ _)
      exact given.trans (.of_modify rfl rfl (.removeAccess _))
  | approved known request numbered isPending addressed entry asking =>
      have kept := (onlyAsks_approveOnStorage _ _).ns_eq asking
      rw [kept]
      exact changed known rfl rfl (.addAccess _ _ _)
  | rejected known =>
      exact (looked known).trans (.of_same rfl rfl)
  | notAdded known valid parsed entry owned other full =>
      exact changed known rfl rfl (.addAccess _ _ _)
  | addRefused known valid parsed entry owned other asking =>
      have kept := (onlyAsks_accessOnStorage _ _).ns_eq asking
      rw [NsState.onRegistry, kept]
      refine LoadKept.trans ?_ (.changeFile _ (.removeAccess _) _)
      exact changed known rfl rfl (.addAccess _ _ _)
  | added known valid parsed entry owned other room asking =>
      have kept := (onlyAsks_accessOnStorage _ _).ns_eq asking
      rw [kept]
      exact changed known rfl rfl (.addAccess _ _ _)
  | removeRefused known valid entry owned listed asking =>
      have kept := (onlyAsks_accessOnStorage _ _).ns_eq asking
      rw [NsState.onRegistry, kept]
      refine LoadKept.trans ?_ (.changeFile _ (.addAccess _ _ _) _)
      exact changed known rfl rfl (.removeAccess _)
  | removed known valid entry owned listed asking =>
      have kept := (onlyAsks_accessOnStorage _ _).ns_eq asking
      rw [kept]
      exact changed known rfl rfl (.removeAccess _)

end Commands

/-! ## Messages of storage servers -/

section Messages

variable
  {address : Nat}
  {ns : NameServer}

theorem entryNamed_of_mem
    (registry : Registry ns)
    {file : FileMetadata}
    (present : file ∈ ns.files) :
    entryNamed file.filename ns = some file := by
  obtain ⟨index, held⟩ := List.getElem?_of_mem present
  have found :=
    (plainScan_eq_some_iff registry.coherent.names_nodup).mpr
      ⟨file, held, rfl⟩
  rw [entryNamed, found, Option.bind_some, held]

theorem connectedServer_some
    {ss : StorageServerInfo}
    (found : connectedServer address ns = some ss) :
    ss ∈ ns.storageServers ∧ ss.address = address ∧ ss.isAlive = true := by
  have accepted := List.find?_some found
  simp only [Bool.and_eq_true, decide_eq_true_eq] at accepted
  exact ⟨List.mem_of_find?_eq_some found, accepted⟩

theorem connectedServer_eq
    (sound : ServersSound ns.storageServers)
    {ss : StorageServerInfo}
    (member : ss ∈ ns.storageServers)
    (named : ss.address = address)
    (isAlive : ss.isAlive = true) :
    connectedServer address ns = some ss := by
  cases found : connectedServer address ns with
  | none =>
      have absent := List.find?_eq_none.mp found ss member
      simp [named, isAlive] at absent
  | some other =>
      obtain ⟨otherMember, otherNamed, _⟩ := connectedServer_some found
      rw [sound.eq_of_address otherMember member (otherNamed.trans named.symm)]

/-- An entry homed on one connected server is homed on no other. -/
theorem not_homedOn_other
    (sound : ServersSound ns.storageServers)
    {ss other : StorageServerInfo}
    (member : ss ∈ ns.storageServers)
    (isAlive : ss.isAlive = true)
    (otherMember : other ∈ ns.storageServers)
    (otherAlive : other.isAlive = true)
    (apart : ss.address ≠ other.address)
    {file : FileMetadata}
    (ssIp : file.ssIp = other.clientIp)
    (ssPort : file.ssPort = other.clientPort) :
    homedOn ss file = false := by
  by_contra homed
  simp only [Bool.not_eq_false, homedOn, Bool.and_eq_true, ssIp, ssPort,
    strncmpEq_iff other.clientIp_short, decide_eq_true_eq] at homed
  exact apart (sound.endpoints ss member other otherMember isAlive otherAlive
    homed.2.1.symm homed.2.2.symm)

/-- What one `SS_HAS_FILE` message does to the table. -/
theorem files_applyHasFile
    (registry : Registry ns)
    {now : Int}
    {ss : StorageServerInfo}
    {msg : List CString}
    {after : NameServer}
    (applied : applyHasFile now ss msg ns = .ok after) :
    after.storageServers = ns.storageServers ∧
      ∃ hasFile,
        hasFileOf msg = some hasFile ∧
          isRecorded hasFile = true ∧
            ((∃ index file,
                ns.files[index]? = some file ∧
                  file.filename = hasFile.filename ∧
                    after.files =
                      ns.files.modify index (updatedMetadata now ss hasFile)) ∨
              ∃ document,
                after.files =
                  ns.files ++
                    [{ reportedMetadata now ss hasFile with
                        document := document }]) := by
  unfold applyHasFile at applied
  split at applied
  · cases applied
  · next hasFile read =>
    split at applied
    · cases applied
    · next validName =>
      split at applied
      · cases applied
      · next validOwner =>
        have recorded : isRecorded hasFile = true := by
          simp only [Bool.and_eq_true, decide_eq_true_eq, Bool.not_eq_true',
            not_and, Bool.not_eq_false] at validName validOwner
          by_cases noOwner : hasFile.owner = []
          · simp [isRecorded, validName, noOwner]
          · simp [isRecorded, validName, validOwner noOwner]
        split at applied
        · next index found =>
          cases applied
          rw [registry.coherent.index_agrees, Option.filter_eq_some_iff] at found
          obtain ⟨file, held, name⟩ := plainScan_some found.1
          have only :=
            onlyCacheChanged_fileCacheStore hasFile.filename index
              (changeFile index (updatedMetadata now ss hasFile) ns)
          exact ⟨only.storageServers, hasFile, read, recorded,
            .inl ⟨index, file, held, name, only.files⟩⟩
        · split at applied
          · cases applied
          · cases applied
            exact ⟨storageServers_registerFile _ _ _, hasFile, read, recorded,
              .inr ⟨_, files_registerFile _ _ _⟩⟩

/-- No message names an entry that is homed on the server at the address. -/
def NoneTaken
    (address : Nat)
    (ns : NameServer)
    (msgs : List (List CString)) : Prop :=
  ∀ msg ∈ msgs, ∀ hasFile, hasFileOf msg = some hasFile →
    isRecorded hasFile = true →
      ∀ ss ∈ ns.storageServers, ss.address = address → ss.isAlive = true →
        ∀ file ∈ ns.files, file.filename = hasFile.filename →
          homedOn ss file = false

theorem noneTaken_of_takesNothing
    (registry : Registry ns)
    (sound : ServersSound ns.storageServers)
    {msgs : List (List CString)}
    (nothing :
      (connectedServer address ns).all fun ss => takesNothing ss msgs ns) :
    NoneTaken address ns msgs := by
  intro msg listed hasFile read recorded ss member named isAlive file present name
  rw [connectedServer_eq sound member named isAlive, Option.all_some,
    takesNothing, List.all_eq_true] at nothing
  have free := nothing msg listed
  rw [read, Option.all_some, recorded, ← name, entryNamed_of_mem registry present]
    at free
  simpa using free

/-- A message of another server that takes no entry. -/
theorem LoadKept.applyHasFile
    (registry : Registry ns)
    (sound : ServersSound ns.storageServers)
    {now : Int}
    {sender : StorageServerInfo}
    (senderMember : sender ∈ ns.storageServers)
    (senderAlive : sender.isAlive = true)
    (apart : address ≠ sender.address)
    {msg : List CString}
    {rest : List (List CString)}
    (noneTaken : NoneTaken address ns (msg :: rest))
    {after : NameServer}
    (applied : DistributedDocs.applyHasFile now sender msg ns = .ok after) :
    LoadKept address ns after ∧ NoneTaken address after rest := by
  obtain ⟨servers, hasFile, read, recorded, recording⟩ :=
    files_applyHasFile registry applied
  have ssIp : safeStrcpy sender.clientIp maxIpLength = sender.clientIp :=
    safeStrcpy_of_short sender.clientIp_short
  have away :
      ∀ ss ∈ ns.storageServers, ss.address = address → ss.isAlive = true →
        ∀ file : FileMetadata, file.ssIp = sender.clientIp →
          file.ssPort = sender.clientPort → homedOn ss file = false := by
    intro ss member named isAlive file
    exact not_homedOn_other sound member isAlive senderMember senderAlive
      (named.trans_ne apart)
  have later :
      (∀ ss ∈ ns.storageServers, ss.address = address → ss.isAlive = true →
        ∀ file ∈ after.files, file ∈ ns.files ∨ homedOn ss file = false) →
        NoneTaken address after rest := by
    intro kept next listed other readOther recordedOther ss member named
      isAlive file present name
    rw [servers] at member
    rcases kept ss member named isAlive file present with earlier | elsewhere
    · exact noneTaken next (List.mem_cons_of_mem msg listed) other readOther
        recordedOther ss member named isAlive file earlier name
    · exact elsewhere
  rcases recording with ⟨index, file, held, name, files⟩ | ⟨document, files⟩
  · have wasAway :
        ∀ ss ∈ ns.storageServers, ss.address = address →
          ss.isAlive = true → homedOn ss file = false :=
      fun ss member named isAlive =>
        noneTaken msg (by simp) hasFile read recorded ss member named isAlive
          file (List.mem_of_getElem? held) name
    have isAway :
        ∀ ss ∈ ns.storageServers, ss.address = address →
          ss.isAlive = true → ∀ entry : FileMetadata,
            homedOn ss (updatedMetadata now sender hasFile entry) = false :=
      fun ss member named isAlive entry => away ss member named isAlive _ ssIp rfl
    refine ⟨of_weights servers fun ss member named isAlive => ?_,
      later fun ss member named isAlive entry present => ?_⟩
    · have balance :=
        sum_map_modify held (weight ss) (updatedMetadata now sender hasFile)
      simpa [files, weight, wasAway ss member named isAlive,
        isAway ss member named isAlive file] using balance
    · rw [files] at present
      rcases mem_modify present with earlier | ⟨former, _, rfl⟩
      · exact .inl earlier
      · exact .inr (isAway ss member named isAlive former)
  · have isAway :
        ∀ ss ∈ ns.storageServers, ss.address = address →
          ss.isAlive = true →
            homedOn ss
              { reportedMetadata now sender hasFile with
                document := document } = false :=
      fun ss member named isAlive => away ss member named isAlive _ ssIp rfl
    refine ⟨of_weights servers fun ss member named isAlive => ?_,
      later fun ss member named isAlive entry present => ?_⟩
    · rw [files, List.map_append, List.sum_append, List.map_singleton,
        List.sum_singleton, weight, isAway ss member named isAlive]
      exact add_zero _
    · rw [files, List.mem_append, List.mem_singleton] at present
      rcases present with earlier | rfl
      · exact .inl earlier
      · exact .inr (isAway ss member named isAlive)

/-- The messages of another server that take no entry. -/
theorem LoadKept.syncFiles
    (registry : Registry ns)
    (sound : ServersSound ns.storageServers)
    {now : Int}
    {sender : StorageServerInfo}
    (senderMember : sender ∈ ns.storageServers)
    (senderAlive : sender.isAlive = true)
    (apart : address ≠ sender.address)
    {msgs : List (List CString)}
    (noneTaken : NoneTaken address ns msgs) :
    LoadKept address ns (syncFiles now sender msgs ns) := by
  induction msgs generalizing ns with
  | nil =>
      exact .of_same rfl rfl
  | cons msg rest inductionHypothesis =>
      rw [DistributedDocs.syncFiles, List.foldl_cons]
      split
      · next after applied =>
        obtain ⟨kept, free⟩ :=
          LoadKept.applyHasFile registry sound senderMember senderAlive apart
            noneTaken applied
        have servers := (files_applyHasFile registry applied).1
        refine kept.trans (inductionHypothesis (registry.applyHasFile applied)
          (servers ▸ sound) (servers ▸ senderMember) free)
      · exact inductionHypothesis registry sound senderMember
          fun later listed => noneTaken later (List.mem_cons_of_mem msg listed)

theorem LoadKept.of_changeServer
    {change : StorageServerInfo → StorageServerInfo}
    (keeps : KeepsEndpoint change)
    {other : Nat}
    (apart : address ≠ other) :
    LoadKept address ns (changeServer other change ns) := by
  refine ⟨_, keeps.at_address other, rfl, fun ss _ named _ accounted => ?_⟩
  rw [if_neg (named.trans_ne apart)]
  exact accounted

theorem keepsEndpoint_resized (delta : Int) :
    KeepsEndpoint (resized delta) :=
  ⟨fun _ => rfl, fun _ => rfl, fun _ => rfl, fun _ => rfl⟩

/-- The entry is homed on the server, if it is a file. -/
def atServer (ss : StorageServerInfo) (file : FileMetadata) : Bool :=
  strncmpEq file.ssIp ss.clientIp maxIpLength && file.ssPort = ss.clientPort

theorem Accounted.counted
    {ss : StorageServerInfo}
    {files : List FileMetadata}
    (accounted : Accounted ss files)
    {index : Nat}
    {file : FileMetadata}
    (held : files[index]? = some file)
    (now words chars : Int)
    {sender : Nat}
    {size : Int}
    (sizeNonneg : 0 ≤ size)
    (alike : countsAlike ss sender size file = true) :
    Balanced
      (if atServer ss file = true ∧ ss.address = sender then
        resized (toLongLong (size - file.size)) ss
      else ss)
      (files.modify index (countedMetadata now size words chars)) := by
  have balance :=
    sum_map_modify held (weight ss) (countedMetadata now size words chars)
  have nonneg :=
    sum_nonneg ss (files.modify index (countedMetadata now size words chars))
  have sameWeight :
      weight
          (if atServer ss file = true ∧ ss.address = sender then
            resized (toLongLong (size - file.size)) ss
          else ss) =
        weight ss := by
    split
    · exact (keepsEndpoint_resized _).weight_eq ss
    · rfl
  obtain ⟨totals, fits⟩ := accounted
  rw [Balanced, sameWeight]
  rw [← totals] at balance fits
  generalize (List.map (weight ss) _).sum = total at balance nonneg ⊢
  obtain ⟨newFiles, newBytes⟩ := total
  have unchanged :
      newBytes = ss.totalBytes →
        ss.totalBytes = max 0 (toLongLong newBytes) := by
    rintro rfl
    rw [toLongLong_of_fits fits, max_eq_right nonneg.2]
  have before :
      weight ss file =
        if (!file.isDirectory && atServer ss file) = true then
          (1, max 0 file.size)
        else 0 :=
    rfl
  have after :
      weight ss (countedMetadata now size words chars file) =
        if (!file.isDirectory && atServer ss file) = true then
          (1, max 0 size)
        else 0 :=
    rfl
  rw [before, after] at balance
  cases isHere : atServer ss file with
  | false =>
      simp only [isHere, Bool.and_false, Bool.false_eq_true, if_false, add_zero]
        at balance
      obtain ⟨sameFiles, sameBytes⟩ := Prod.mk.inj balance
      simp only [Bool.false_eq_true, false_and, if_false]
      exact ⟨sameFiles.symm, unchanged sameBytes⟩
  | true =>
      have alikeHere :
          (sender = ss.address →
            if file.isDirectory = true then
              (resized (toLongLong (size - file.size)) ss).totalBytes =
                ss.totalBytes
            else 0 ≤ file.size) ∧
            (sender ≠ ss.address →
              file.isDirectory = true ∨ size = max 0 file.size) := by
        unfold atServer at isHere
        unfold countsAlike at alike
        simp only [isHere] at alike
        by_cases own : sender = ss.address
        · refine ⟨fun _ => ?_, absurd own⟩
          by_cases folder : file.isDirectory = true
          · simpa [own, folder] using alike
          · simpa [own, folder] using alike
        · exact ⟨fun same => absurd same own, fun _ => by simpa [own] using alike⟩
      cases folder : file.isDirectory with
      | true =>
          simp only [folder, Bool.not_true, Bool.false_and, Bool.false_eq_true,
            if_false, add_zero] at balance
          obtain ⟨sameFiles, sameBytes⟩ := Prod.mk.inj balance
          split
          · next own =>
            have keptBytes := alikeHere.1 own.2.symm
            rw [if_pos folder] at keptBytes
            exact ⟨sameFiles.symm, keptBytes.trans (unchanged sameBytes)⟩
          · exact ⟨sameFiles.symm, unchanged sameBytes⟩
      | false =>
          simp only [folder, isHere, Bool.not_false, Bool.true_and, if_true,
            Prod.mk_add_mk, Prod.mk.injEq] at balance
          obtain ⟨sameFiles, sumBytes⟩ := balance
          split
          · next own =>
            have oldNonneg := alikeHere.1 own.2.symm
            rw [if_neg (by simp [folder])] at oldNonneg
            -- Both the total and the recount wrap where the new sum does.
            have newSum : newBytes = ss.totalBytes + (size - file.size) := by
              omega
            refine ⟨(add_right_cancel sameFiles).symm, ?_⟩
            rw [resized, toLongLong_add_toLongLong, newSum]
          · next other =>
            have sameSize := alikeHere.2 fun own => other ⟨rfl, own.symm⟩
            rw [folder] at sameSize
            exact ⟨(add_right_cancel sameFiles).symm,
              unchanged (by
                have := sameSize.resolve_left Bool.false_ne_true
                omega)⟩

/-- A `WRITE_COMPLETE` that changes the kept total as it changes the recount. -/
theorem LoadBalanced.applyWriteComplete
    (registry : Registry ns)
    (sound : ServersSound ns.storageServers)
    (now : Int)
    {sender : StorageServerInfo}
    (senderMember : sender ∈ ns.storageServers)
    (filename : CString)
    (size words chars : Nat)
    (alike :
      (connectedServer address ns).all fun ss =>
        (entryNamed filename ns).all
          (countsAlike ss sender.address (atoll (decimal size)))) :
    LoadBalanced address ns
      (applyWriteComplete now sender
        [str "WRITE_COMPLETE", filename, decimal size, decimal words,
          decimal chars] ns) := by
  have sizeNonneg : 0 ≤ atoll (decimal size) := by
    have ends : EndsNumber [] := by simp [EndsNumber]
    have read := strtol_decimal (size : Int) ends
    rw [List.append_nil] at read
    rw [atoll, read]
    omega
  unfold DistributedDocs.applyWriteComplete
  simp only [registry.coherent.index_agrees]
  generalize atoll (decimal size) = newSize at alike sizeNonneg ⊢
  generalize atoll (decimal words) = wordCount
  generalize atoll (decimal chars) = charCount
  split
  · next index file found =>
    rw [Option.bind_eq_some_iff] at found
    obtain ⟨position, scanned, heldAt⟩ := found
    obtain ⟨_, held, same⟩ := Option.map_eq_some_iff.mp heldAt
    cases same
    have known : entryNamed filename ns = some file := by
      rw [entryNamed, scanned, Option.bind_some, held]
    simp only [known, Option.all_some] at alike
    have only :=
      onlyCacheChanged_fileCacheStore filename index
        (DistributedDocs.changeFile index
          (countedMetadata now newSize wordCount charCount) ns)
    generalize fileCacheStore filename index _ = stored at only ⊢
    have recount :
        ∀ ss ∈ ns.storageServers, ss.address = address → ss.isAlive = true →
          Accounted ss ns.files →
            Balanced
              (if atServer ss file = true ∧ ss.address = sender.address then
                resized (toLongLong (newSize - file.size)) ss
              else ss)
              stored.files := by
      intro ss member named isAlive accounted
      rw [connectedServer_eq sound member named isAlive, Option.all_some]
        at alike
      rw [only.files]
      exact accounted.counted held now wordCount charCount sizeNonneg alike
    split
    · next isHere =>
      have keeps :=
        (keepsEndpoint_resized
          (toLongLong (newSize - file.size))).at_address sender.address
      refine ⟨_, keeps, ?_, fun ss member named isAlive accounted => ?_⟩
      · rw [changeServer, only.storageServers]
        rfl
      · have exact := recount ss member named isAlive accounted
        by_cases own : ss.address = sender.address
        · obtain rfl := sound.eq_of_address member senderMember own
          rw [if_pos ⟨isHere, rfl⟩] at exact
          rwa [if_pos rfl]
        · rw [if_neg (own ·.2)] at exact
          rwa [if_neg own]
    · next away =>
      refine ⟨_, .same, ?_, fun ss member named isAlive accounted => ?_⟩
      · simp [only.storageServers, DistributedDocs.changeFile]
      · have exact := recount ss member named isAlive accounted
        rwa [if_neg] at exact
        rintro ⟨isHere, own⟩
        obtain rfl := sound.eq_of_address member senderMember own
        exact away isHere
  · exact LoadKept.balanced (.of_same rfl rfl)

end Messages

/-! ## Runs -/

section Runs

variable
  {World : Type}
  {backend : Backend World}
  {address : Nat}

/-- What holds of the name server in every state. -/
structure LoadsSound (ns : NameServer) : Prop where
  registry : Registry ns
  servers : ServersSound ns.storageServers

theorem registry_syncFiles
    {ns : NameServer}
    (registry : Registry ns)
    (now : Int)
    (ss : StorageServerInfo)
    (msgs : List (List CString)) :
    Registry (syncFiles now ss msgs ns) ∧
      (syncFiles now ss msgs ns).storageServers = ns.storageServers := by
  induction msgs generalizing ns with
  | nil =>
      exact ⟨registry, rfl⟩
  | cons msg rest inductionHypothesis =>
      rw [syncFiles, List.foldl_cons]
      split
      · next after applied =>
        have servers := (files_applyHasFile registry applied).1
        obtain ⟨later, same⟩ :=
          inductionHypothesis (registry.applyHasFile applied)
        exact ⟨later, same.trans servers⟩
      · exact inductionHypothesis registry

theorem keepsEndpoint_recounted (ns : NameServer) :
    KeepsEndpoint (recounted ns) :=
  ⟨fun _ => rfl, fun _ => rfl, fun _ => rfl, fun _ => rfl⟩

/-- A recount is exact. -/
theorem loadExact_nsRecalculateServerLoad
    (address : Nat)
    (ns : NameServer) :
    LoadExact address (nsRecalculateServerLoad address ns) := by
  rw [loadExact_iff, nsRecalculateServerLoad_eq]
  intro ss member named
  obtain ⟨former, _, rfl⟩ := List.mem_map.mp member
  have keeps := (keepsEndpoint_recounted ns).at_address address
  have formerNamed := (keeps.address former).symm.trans named
  rw [Balanced, keeps.weight_eq, sum_weight, if_pos formerNamed]
  exact ⟨rfl, rfl⟩

theorem serversSound_connectServer
    {ns : NameServer}
    (sound : ServersSound ns.storageServers)
    (ss : StorageServerInfo) :
    ServersSound (connectServer ss ns).storageServers := by
  unfold connectServer
  split
  · exact sound
  · next fresh =>
    have isFresh :
        ∀ info ∈ ns.storageServers,
          info.address ≠ ss.address ∧
            (info.isAlive = true → info.clientIp = ss.clientIp →
              info.clientPort ≠ ss.clientPort) := by
      simpa [not_or] using fresh
    constructor
    · rw [List.map_append, List.map_singleton, List.nodup_append_comm,
        List.singleton_append, List.nodup_cons]
      refine ⟨fun taken => ?_, sound.addresses⟩
      obtain ⟨info, member, same⟩ := List.mem_map.mp taken
      exact (isFresh info member).1 same
    · intro first firstMember second secondMember firstAlive secondAlive sameIp
        samePort
      rw [List.mem_append, List.mem_singleton] at firstMember secondMember
      rcases firstMember with firstOld | rfl <;>
        rcases secondMember with secondOld | rfl
      · exact sound.endpoints first firstOld second secondOld firstAlive
          secondAlive sameIp samePort
      · exact absurd samePort ((isFresh first firstOld).2 firstAlive sameIp)
      · exact absurd samePort.symm
          ((isFresh second secondOld).2 secondAlive sameIp.symm)
      · rfl

theorem serversSound_lose
    {servers : List StorageServerInfo}
    (sound : ServersSound servers)
    (address : Nat) :
    ServersSound
      (servers.map fun ss =>
        if ss.address = address then
          { ss with isAlive := false, sockfd := -1 }
        else ss) := by
  have kept :
      ∀ ss : StorageServerInfo,
        let after :=
          if ss.address = address then
            { ss with isAlive := false, sockfd := -1 }
          else ss
        after.address = ss.address ∧
          after.clientIp = ss.clientIp ∧
            after.clientPort = ss.clientPort ∧
              (after.isAlive = true → ss.isAlive = true) := by
    intro ss
    simp only
    split
    · exact ⟨rfl, rfl, rfl, fun isAlive => by cases isAlive⟩
    · exact ⟨rfl, rfl, rfl, id⟩
  constructor
  · rw [List.map_map]
    have same :
        (servers.map
            (StorageServerInfo.address ∘ fun ss =>
              if ss.address = address then
                { ss with isAlive := false, sockfd := -1 }
              else ss)) =
          servers.map StorageServerInfo.address :=
      List.map_congr_left fun ss _ => (kept ss).1
    rw [same]
    exact sound.addresses
  · intro first firstMember second secondMember
    obtain ⟨former, formerMember, rfl⟩ := List.mem_map.mp firstMember
    obtain ⟨other, otherMember, rfl⟩ := List.mem_map.mp secondMember
    obtain ⟨formerAddress, formerIp, formerPort, formerAlive⟩ := kept former
    obtain ⟨otherAddress, otherIp, otherPort, otherAlive⟩ := kept other
    simp only at *
    rw [formerAddress, formerIp, formerPort, otherAddress, otherIp, otherPort]
    intro firstAlive secondAlive
    exact sound.endpoints former formerMember other otherMember
      (formerAlive firstAlive) (otherAlive secondAlive)

theorem serversSound_applyWriteComplete
    {ns : NameServer}
    (sound : LoadsSound ns)
    (now : Int)
    (sender : StorageServerInfo)
    (msg : List CString) :
    ServersSound (applyWriteComplete now sender msg ns).storageServers := by
  unfold applyWriteComplete
  split
  · next type filename size words chars rest =>
    simp only
    split
    · next index file found =>
      have only :=
        onlyCacheChanged_fileCacheStore filename index
          (changeFile index
            (countedMetadata now (atoll size) (atoll words)
              (atoll chars)) ns)
      have stored := only.storageServers.symm ▸ sound.servers
      split
      · exact stored.mapped ((keepsEndpoint_resized _).at_address sender.address)
      · exact stored
    · exact sound.servers
  · exact sound.servers

theorem LoadsSound.loadStep
    {state : NsState World}
    (sound : LoadsSound state.ns)
    (step : LoadStep) :
    LoadsSound (loadStep backend state step).ns := by
  cases step with
  | command now username command =>
      have kept :
          LoadKept 0 state.ns
            (DistributedDocs.loadStep backend state
              (.command now username command)).ns :=
        loadKept_of_effect sound.registry sound.servers
          (effect_of_command backend now username sound.registry.coherent
            command)
      exact ⟨sound.registry.nsStep (.command now username command),
        kept.serversSound sound.servers⟩
  | writeComplete now sender filename size words chars =>
      unfold DistributedDocs.loadStep NsState.onRegistry
      simp only
      split
      · next ss _ =>
        constructor
        · exact sound.registry.applyWriteComplete ss
            [str "WRITE_COMPLETE", filename, decimal size, decimal words,
              decimal chars]
        · exact serversSound_applyWriteComplete sound now ss _
      · exact sound
  | sync now sender msgs =>
      unfold DistributedDocs.loadStep
      simp only
      split
      · next ss _ =>
        obtain ⟨synced, servers⟩ :=
          registry_syncFiles sound.registry now ss msgs
        simp only [NsState.onRegistry, nsRecalculateServerLoad_eq]
        refine ⟨synced.changeServer _ _, ?_⟩
        exact (servers ▸ sound.servers).mapped
          ((keepsEndpoint_recounted _).at_address sender)
      · exact sound
  | connect ss =>
      refine ⟨?_, serversSound_connectServer sound.servers ss⟩
      unfold DistributedDocs.loadStep NsState.onRegistry connectServer
      simp only
      split
      · exact sound.registry
      · exact sound.registry.of_same rfl rfl rfl
  | lose other =>
      exact ⟨sound.registry.of_same rfl rfl rfl,
        serversSound_lose sound.servers other⟩

theorem loadsSound_nsInit (world : World) :
    LoadsSound (NsState.ns ⟨nsInit, world⟩) where
  registry := registry_nsInit
  servers := ⟨List.nodup_nil, fun _ member => by cases member⟩

/-- The server at the address is connected, and its totals are exact. -/
structure LoadTracked (address : Nat) (ns : NameServer) : Prop where
  sound : LoadsSound ns
  connected : (connectedServer address ns).isSome
  exact : LoadExact address ns

theorem connectedServer_isSome_iff {address : Nat} {ns : NameServer} :
    (connectedServer address ns).isSome ↔
      ∃ ss ∈ ns.storageServers, ss.address = address ∧ ss.isAlive = true := by
  simp [connectedServer]

namespace LoadBalanced

variable {before after : NameServer}

theorem connected
    (balanced : LoadBalanced address before after)
    (isConnected : (connectedServer address before).isSome) :
    (connectedServer address after).isSome := by
  obtain ⟨change, keeps, servers, _⟩ := balanced
  rw [connectedServer_isSome_iff] at isConnected ⊢
  obtain ⟨ss, member, named, isAlive⟩ := isConnected
  refine ⟨change ss, ?_, (keeps.address ss).trans named,
    (keeps.isAlive ss).trans isAlive⟩
  rw [servers]
  exact List.mem_map_of_mem member

theorem exact
    (balanced : LoadBalanced address before after)
    (tracked : LoadTracked address before)
    (fits :
      (connectedServer address before).all fun ss =>
        bytesFit ss before.files) :
    LoadExact address after := by
  obtain ⟨ss, member, named, isAlive⟩ :=
    connectedServer_isSome_iff.mp tracked.connected
  rw [connectedServer_eq tracked.sound.servers member named isAlive,
    Option.all_some] at fits
  have accounted :=
    (loadExact_iff.mp tracked.exact ss member named).accounted fits
  obtain ⟨change, keeps, servers, counts⟩ := balanced
  rw [loadExact_iff]
  intro later laterMember laterNamed
  rw [servers] at laterMember
  obtain ⟨former, formerMember, rfl⟩ := List.mem_map.mp laterMember
  obtain rfl :=
    tracked.sound.servers.eq_of_address member formerMember
      (named.trans ((keeps.address former).symm.trans laterNamed).symm)
  exact counts ss member named isAlive accounted

end LoadBalanced

/-- After its own sync the totals of a server are exact. -/
theorem LoadsSound.synced
    {state : NsState World}
    (sound : LoadsSound state.ns)
    (isConnected : (connectedServer address state.ns).isSome)
    (now : Int)
    (msgs : List (List CString)) :
    LoadTracked address
      (DistributedDocs.loadStep backend state (.sync now address msgs)).ns := by
  refine ⟨sound.loadStep _, ?_, ?_⟩
  all_goals
    obtain ⟨ss, found⟩ := Option.isSome_iff_exists.mp isConnected
    unfold DistributedDocs.loadStep NsState.onRegistry
    simp only [found]
  · obtain ⟨member, named, isAlive⟩ := connectedServer_some found
    have servers := (registry_syncFiles sound.registry now ss msgs).2
    have keeps :=
      (keepsEndpoint_recounted (syncFiles now ss msgs state.ns)).at_address
        address
    rw [nsRecalculateServerLoad_eq, connectedServer_isSome_iff]
    exact ⟨_, List.mem_map_of_mem (servers.symm ▸ member),
      (keeps.address ss).trans named, (keeps.isAlive ss).trans isAlive⟩
  · exact loadExact_nsRecalculateServerLoad address _

theorem connected_connectServer
    {ns : NameServer}
    (isConnected : (connectedServer address ns).isSome)
    (ss : StorageServerInfo) :
    (connectedServer address (connectServer ss ns)).isSome := by
  rw [connectedServer_isSome_iff] at isConnected ⊢
  obtain ⟨info, member, named, isAlive⟩ := isConnected
  refine ⟨info, ?_, named, isAlive⟩
  unfold connectServer
  split
  · exact member
  · exact List.mem_append_left _ member

/-- The address of the server is not given to another one. -/
theorem loadExact_connectServer
    {ns : NameServer}
    (tracked : LoadTracked address ns)
    (ss : StorageServerInfo) :
    LoadExact address (connectServer ss ns) := by
  obtain ⟨info, member, named, isAlive⟩ :=
    connectedServer_isSome_iff.mp tracked.connected
  have exact := loadExact_iff.mp tracked.exact
  rw [loadExact_iff]
  unfold connectServer
  split
  · exact exact
  · next fresh =>
    intro later laterMember laterNamed
    rw [List.mem_append, List.mem_singleton] at laterMember
    rcases laterMember with former | rfl
    · exact exact later former laterNamed
    · refine absurd (List.any_eq_true.mpr ⟨info, member, ?_⟩) fresh
      have same : info.address = ss.address := named.trans laterNamed.symm
      simp [same]

/-- A step that meets the condition leaves the totals exact. -/
theorem LoadTracked.loadStep
    {state : NsState World}
    (tracked : LoadTracked address state.ns)
    {step : LoadStep}
    (stays : step ≠ .lose address)
    (keepsLoad : KeepsLoad address state step) :
    LoadTracked address (loadStep backend state step).ns := by
  have sound :
      LoadsSound (DistributedDocs.loadStep backend state step).ns :=
    tracked.sound.loadStep step
  have of_balanced :
      LoadBalanced address state.ns
        (DistributedDocs.loadStep backend state step).ns →
          LoadTracked address
            (DistributedDocs.loadStep backend state step).ns :=
    fun balanced =>
      ⟨sound, balanced.connected tracked.connected,
        balanced.exact tracked keepsLoad.fits⟩
  have of_kept :
      LoadKept address state.ns
        (DistributedDocs.loadStep backend state step).ns →
          LoadTracked address
            (DistributedDocs.loadStep backend state step).ns :=
    fun kept => of_balanced kept.balanced
  have counts := keepsLoad.counts
  cases step with
  | command now username command =>
      exact of_kept
        (loadKept_of_effect tracked.sound.registry tracked.sound.servers
          (effect_of_command backend now username
            tracked.sound.registry.coherent command))
  | writeComplete now sender filename size words chars =>
      refine of_balanced ?_
      unfold CountsStep at counts
      unfold DistributedDocs.loadStep NsState.onRegistry
      simp only
      split
      · next ss found =>
        obtain ⟨member, rfl, _⟩ := connectedServer_some found
        exact .applyWriteComplete tracked.sound.registry tracked.sound.servers
          now member filename size words chars (counts (by simp [found]))
      · exact LoadKept.balanced (.of_same rfl rfl)
  | sync now sender msgs =>
      by_cases own : sender = address
      · subst own
        exact tracked.sound.synced tracked.connected now msgs
      · refine of_kept ?_
        unfold DistributedDocs.loadStep NsState.onRegistry
        simp only
        split
        · next ss found =>
          obtain ⟨member, named, isAlive⟩ := connectedServer_some found
          have apart : address ≠ ss.address := fun same =>
            own (named.symm.trans same.symm)
          have synced :
              LoadKept address state.ns (syncFiles now ss msgs state.ns) :=
            .syncFiles tracked.sound.registry tracked.sound.servers member
              isAlive apart
              (noneTaken_of_takesNothing tracked.sound.registry
                tracked.sound.servers (counts.resolve_left own))
          simp only [nsRecalculateServerLoad_eq]
          exact synced.trans
            (.of_changeServer (keepsEndpoint_recounted _) (Ne.symm own))
        · exact .of_same rfl rfl
  | connect ss =>
      exact ⟨sound, connected_connectServer tracked.connected ss,
        loadExact_connectServer tracked ss⟩
  | lose other =>
      have apart : address ≠ other := fun same => stays (same ▸ rfl)
      obtain ⟨ss, member, named, isAlive⟩ :=
        connectedServer_isSome_iff.mp tracked.connected
      refine ⟨sound, ?_, ?_⟩
      · rw [connectedServer_isSome_iff]
        refine ⟨ss, List.mem_map.mpr ⟨ss, member, ?_⟩, named, isAlive⟩
        rw [if_neg (named.trans_ne apart)]
      · rw [loadExact_iff]
        intro later laterMember laterNamed
        obtain ⟨former, formerMember, rfl⟩ := List.mem_map.mp laterMember
        split at laterNamed
        · next here =>
          exact absurd (laterNamed.symm.trans here) apart
        · next away =>
          rw [if_neg away]
          exact loadExact_iff.mp tracked.exact former formerMember laterNamed

/--
The totals a storage server has after its sync stay exact, in every run whose
steps take nothing from the server unnoticed.
-/
theorem exactAfterSync_of_keepsLoad
    (backend : Backend World)
    (world : World)
    (address : Nat)
    (before : List LoadStep)
    (now : Int)
    (msgs : List (List CString))
    (after : List LoadStep)
    (guarded :
      GuardedRun (loadStep backend) (KeepsLoad address)
        (loadStep backend
          (runFrom (loadStep backend) ⟨nsInit, world⟩ before)
          (.sync now address msgs))
        after) :
    ExactAfterSync backend world address before now msgs after := by
  intro isConnected stays
  have preserved :
      ∀ (state : NsState World) (step : LoadStep),
        LoadsSound state.ns → LoadsSound (loadStep backend state step).ns :=
    fun _ step earlier => earlier.loadStep step
  have sound :=
    runFrom_invariant preserved (loadsSound_nsInit world) before
  have remains :
      ∀ (state : NsState World) (step : LoadStep),
        LoadTracked address state.ns →
          KeepsLoad address state step ∧ step ≠ .lose address →
            LoadTracked address (loadStep backend state step).ns :=
    fun _ _ tracked guard => tracked.loadStep guard.2 guard.1
  exact (GuardedRun.invariant remains (sound.synced isConnected now msgs)
    (guarded.and (GuardedRun.of_forall_mem stays))).exact

end Runs

/-! ## Two servers with one file -/

/-- A file is created on the first server, and a version of it is written. -/
def writesOnFirst : List LoadStep :=
  [.command 10 (str "ada") (.create [str "CREATE", str "plan"]),
    .writeComplete 20 0 (str "plan") 40 8 40,
    .connect secondStorageServer]

/-- The second server has a file, too. -/
def reportsFile (name : String) : LoadStep :=
  .sync 30 1 [[str "SS_HAS_FILE", str name, str "ada", [], [], str "7"]]

/-- Without a file that changes its home, the totals stay exact. -/
theorem exactAfterSync_notes :
    ExactAfterSync acceptingStorage () 0 [.connect someStorageServer] 5 []
        (writesOnFirst ++ [reportsFile "notes"]) ∧
      ((runFrom (loadStep acceptingStorage) ⟨nsInit, ()⟩
          ([.connect someStorageServer, .sync 5 0 []] ++ writesOnFirst ++
            [reportsFile "notes"])).ns.storageServers.map fun ss =>
        (ss.totalFiles, ss.totalBytes)) =
        [(1, 40), (1, 7)] :=
  ⟨exactAfterSync_of_keepsLoad acceptingStorage () 0
    [.connect someStorageServer] 5 [] (writesOnFirst ++ [reportsFile "notes"])
    (by decide +kernel), by decide +kernel⟩

/-- The first server keeps the totals of a file that has left it. -/
theorem not_exactAfterSync_plan :
    ¬ExactAfterSync acceptingStorage () 0 [.connect someStorageServer] 5 []
      (writesOnFirst ++ [reportsFile "plan"]) := by
  intro always
  have exact := always (by decide +kernel) (by decide +kernel)
  have wrong :
      ∃ ss ∈
          (runFrom (loadStep acceptingStorage) ⟨nsInit, ()⟩
            ([.connect someStorageServer, .sync 5 0 []] ++ writesOnFirst ++
              [reportsFile "plan"])).ns.storageServers,
        ss.address = 0 ∧
          ¬Balanced ss
            (runFrom (loadStep acceptingStorage) ⟨nsInit, ()⟩
              ([.connect someStorageServer, .sync 5 0 []] ++ writesOnFirst ++
                [reportsFile "plan"])).ns.files := by
    decide +kernel
  obtain ⟨ss, member, named, differ⟩ := wrong
  exact differ (loadExact_iff.mp exact ss member named)

end DistributedDocs
