import DistributedDocs.FileAgreement
import DistributedDocs.NameServerDatabase

namespace DistributedDocs

/-!
# What the fields of the registry can hold

Every field of an entry or of a request comes from a message, from a user or
from a storage server, through the checks of a command.  A property that those
checks establish, and that no command takes away, holds of the whole registry
in every state of a run.
-/

/-- The message of a command. -/
def NsCommand.message : NsCommand → List CString
  | .create msg | .createFolder msg | .move msg | .delete msg | .copy msg
  | .reqLoc msg | .requestAccess msg | .approveAccess msg
  | .rejectAccess msg | .addAccess msg | .remAccess msg => msg
  | .lookup filename => [filename]

/-- What the outside may hand to the name server. -/
structure FieldRules where
  charOk : CChar → Prop
  userOk : CString → Prop
  serverOk : CString → Int → Prop
  timeOk : Int → Prop
  countOk : Int → Prop

namespace FieldRules

/-- All characters of a field are allowed. -/
def FieldOk (rules : FieldRules) (field : CString) : Prop :=
  ∀ c ∈ field, rules.charOk c

/-- The fields and the counts of `SS_HAS_FILE`. -/
structure HasFileOk (rules : FieldRules) (msg : HasFile) : Prop where
  filename : rules.FieldOk msg.filename
  size : rules.countOk msg.size
  words : rules.countOk msg.words
  chars : rules.countOk msg.chars

/-- What an action brings in is allowed. -/
def Allows {World : Type} (rules : FieldRules) : NsAction World → Prop
  | .command now username command =>
      rules.timeOk now ∧ rules.userOk username ∧
        ∀ field ∈ command.message, rules.FieldOk field
  | .hasFile now ss msg =>
      rules.timeOk now ∧ rules.serverOk ss.clientIp ss.clientPort ∧
        ∀ hasFile, hasFileOf msg = some hasFile → rules.HasFileOk hasFile
  | .writeComplete now _ msg =>
      rules.timeOk now ∧ ∀ field ∈ msg, rules.countOk (atoll field)
  | .servers storageServers =>
      ∀ ss ∈ storageServers, rules.serverOk ss.clientIp ss.clientPort
  | .filesDone _ | .storage _ => True

end FieldRules

/-- Who asks whom for which file. -/
def partiesOf (req : AccessRequest) : CString × CString × CString :=
  (req.filename, req.fromUser, req.toUser)

/-- Properties that the checks establish and no change takes away. -/
structure Survive
    (rules : FieldRules)
    (entryOk : FileMetadata → Prop)
    (requestOk : CString × CString × CString → Prop) : Prop where
  slash : rules.charOk (CChar.ofChar '/')
  validUser : ∀ user, validateUsername user = true → rules.userOk user
  named : ∀ file, entryOk file → rules.FieldOk file.filename
  relabelled :
    ∀ file document, entryOk file →
      entryOk { file with document := document }
  created :
    ∀ now username filename target,
      rules.timeOk now → rules.userOk username → rules.FieldOk filename →
        validateFilename filename = true →
          rules.serverOk target.clientIp target.clientPort →
            entryOk (newMetadata now username filename target)
  folder :
    ∀ now username path,
      rules.timeOk now → rules.userOk username → rules.FieldOk path →
        nsValidateLogicalPath path = true →
          entryOk (newFolder now username path)
  renamed :
    ∀ now username newPath file,
      rules.timeOk now → rules.userOk username → rules.FieldOk newPath →
        nsValidateLogicalPath newPath = true → entryOk file →
          entryOk (renamedMetadata now username newPath file)
  accessed :
    ∀ now username file,
      rules.timeOk now → rules.userOk username → entryOk file →
        entryOk (accessedMetadata now username file)
  located :
    ∀ now username operation file,
      rules.timeOk now → rules.userOk username → entryOk file →
        entryOk (locatedMetadata now username operation file)
  granted :
    ∀ file user grantRead grantWrite,
      entryOk file → rules.userOk user →
        entryOk (fileAddAccess file user grantRead grantWrite).2
  revoked :
    ∀ file user, entryOk file → entryOk (fileRemoveAccess file user).2
  updated :
    ∀ now ss msg file,
      rules.timeOk now → rules.serverOk ss.clientIp ss.clientPort →
        rules.HasFileOk msg → isRecorded msg = true → entryOk file →
          entryOk (updatedMetadata now ss msg file)
  reported :
    ∀ now ss msg,
      rules.timeOk now → rules.serverOk ss.clientIp ss.clientPort →
        rules.HasFileOk msg → isRecorded msg = true →
          entryOk (reportedMetadata now ss msg)
  counted :
    ∀ now size words chars file,
      rules.timeOk now → rules.countOk size → rules.countOk words →
        rules.countOk chars → entryOk file →
          entryOk (countedMetadata now size words chars file)
  requested :
    ∀ username filename grantRead grantWrite file ns,
      rules.userOk username → rules.FieldOk filename →
        validateFilename filename = true → entryOk file →
          requestOk
            (partiesOf
              (newRequest username filename grantRead grantWrite file ns))
  requester :
    ∀ filename fromUser toUser,
      requestOk (filename, fromUser, toUser) → rules.userOk fromUser

/-- The entries, the requests and the servers of a registry. -/
structure FieldsHold
    (rules : FieldRules)
    (entryOk : FileMetadata → Prop)
    (requestOk : CString × CString × CString → Prop)
    (ns : NameServer) : Prop where
  entries : ∀ file ∈ ns.files, entryOk file
  requests : ∀ parties ∈ ns.accessRequests.map partiesOf, requestOk parties
  servers :
    ∀ endpoint ∈ connectionsOf ns, rules.serverOk endpoint.2.1 endpoint.2.2.1

/-! ## Names -/

theorem validateFilename_of_path
    {path : CString}
    (valid : nsValidateLogicalPath path = true) :
    validateFilename path = true := by
  simp only [nsValidateLogicalPath, Bool.and_eq_true] at valid
  exact valid.1.1

/-- A valid name is kept whole. -/
theorem safeStrcpy_of_validateFilename
    {filename : CString}
    (valid : validateFilename filename = true) :
    safeStrcpy filename maxFilenameLength = filename :=
  safeStrcpy_of_short (length_of_validateFilename valid)

theorem validateFilename_copied
    {filename : CString}
    (valid : validateFilename filename = true) :
    validateFilename (safeStrcpy filename maxFilenameLength) = true := by
  rw [safeStrcpy_of_validateFilename valid]
  exact valid

/-! ## What the operations leave -/

section Operations

theorem parties_changeRequest
    (position : Nat)
    {change : AccessRequest → AccessRequest}
    (same : ∀ req, partiesOf (change req) = partiesOf req)
    (ns : NameServer) :
    (changeRequest position change ns).accessRequests.map partiesOf =
      ns.accessRequests.map partiesOf := by
  exact map_modify_same same position ns.accessRequests

theorem parties_applyDelete
    (plan : List DeletePlanEntry)
    (ns : NameServer) :
    (applyDelete plan ns).accessRequests.map partiesOf =
      ns.accessRequests.map partiesOf := by
  rw [applyDelete]
  induction removalOrder plan generalizing ns with
  | nil =>
      rfl
  | cons entry rest inductionHypothesis =>
      have cancelled :
          ∀ requests : List AccessRequest,
            (cancelRequests entry.path requests).map partiesOf =
              requests.map partiesOf := by
        intro requests
        rw [cancelRequests, List.map_map]
        refine List.map_congr_left fun req _ => ?_
        simp only [Function.comp_apply]
        split <;> rfl
      have step :
          (applyDeleteEntry ns entry).accessRequests.map partiesOf =
            ns.accessRequests.map partiesOf := by
        have requests := (sameRest_remove entry.path ns).1
        unfold applyDeleteEntry
        generalize removeFileMetadataLocked entry.path ns = pair at requests
        obtain ⟨found, left⟩ := pair
        cases found with
        | false => exact congrArg _ requests
        | true =>
            refine (cancelled _).trans (Eq.trans ?_ (congrArg _ requests))
            cases entry.ss <;> rfl
      exact (inductionHypothesis _).trans step

theorem FieldRules.FieldOk.append
    {rules : FieldRules}
    {first second : CString}
    (firstOk : rules.FieldOk first)
    (secondOk : rules.FieldOk second) :
    rules.FieldOk (first ++ second) := by
  intro c member
  rcases List.mem_append.mp member with inFirst | inSecond
  · exact firstOk c inFirst
  · exact secondOk c inSecond

theorem FieldRules.FieldOk.sublist
    {rules : FieldRules}
    {part field : CString}
    (fieldOk : rules.FieldOk field)
    (isPart : part.Sublist field) :
    rules.FieldOk part :=
  fun c member => fieldOk c (isPart.subset member)

end Operations

section Moving

/-- The last component of a path is a part of it. -/
theorem sublist_of_nsSplitParentChild
    {path parent child : CString}
    (isSplit : nsSplitParentChild path = some (parent, child)) :
    child.Sublist path := by
  unfold nsSplitParentChild at isSplit
  simp only [List.span_eq_takeWhile_dropWhile] at isSplit
  split at isSplit
  · obtain ⟨-, rfl⟩ := Prod.mk.inj (Option.some.inj isSplit)
    exact List.take_sublist _ _
  · split at isSplit
    · cases isSplit
    · obtain ⟨-, rfl⟩ := Prod.mk.inj (Option.some.inj isSplit)
      refine (List.take_sublist _ _).trans ?_
      have isPart :
          (path.reverse.takeWhile fun c =>
            decide (c ≠ CChar.ofChar '/')).reverse.Sublist
              path.reverse.reverse :=
        (List.takeWhile_sublist _).reverse
      rwa [List.reverse_reverse] at isPart

variable
  {rules : FieldRules}
  {ns : NameServer}
  {username srcPath destFolder destination : CString}
  {source : FileMetadata}
  {baseName finalRoot : CString}
  {plan : List MovePlanEntry}

/-- A new path is made of the paths of the command and the old name. -/
theorem FieldRules.fieldOk_newPath
    (slash : rules.charOk (CChar.ofChar '/'))
    (srcOk : rules.FieldOk srcPath)
    (destOk : rules.FieldOk destFolder)
    (normalized : nsNormalizeDestination destFolder = some destination)
    (planned :
      PlannedMoves ns username srcPath destination source baseName finalRoot
        plan)
    (named : ∀ file ∈ ns.files, rules.FieldOk file.filename)
    {entry : MovePlanEntry}
    (member : entry ∈ plan) :
    rules.FieldOk entry.newPath := by
  have destinationOk : rules.FieldOk destination := by
    unfold nsNormalizeDestination at normalized
    split at normalized
    · obtain rfl := Option.some.inj normalized
      exact fun _ none => by cases none
    · split at normalized
      · obtain rfl := Option.some.inj normalized
        exact destOk.sublist (List.take_sublist _ _)
      · cases normalized
  have baseOk : rules.FieldOk baseName := by
    obtain ⟨parent, isSplit⟩ := planned.baseName_eq
    exact srcOk.sublist (sublist_of_nsSplitParentChild isSplit)
  have rootOk : rules.FieldOk finalRoot := by
    have isRoot := planned.finalRoot_eq
    unfold finalRootPath at isRoot
    split at isRoot
    · obtain rfl := Option.some.inj isRoot
      exact baseOk.sublist (List.take_sublist _ _)
    · simp only at isRoot
      split at isRoot
      · cases isRoot
      · obtain rfl := Option.some.inj isRoot
        have separator : rules.FieldOk (str "/") := by
          intro c inText
          rw [List.mem_singleton.mp inText]
          exact slash
        exact (destinationOk.append separator).append baseOk
  obtain ⟨-, rest, oldPath, newPath⟩ := planned.paths member
  obtain ⟨file, present, -, plannedEntry⟩ := planned.exists_file member
  have oldOk : rules.FieldOk entry.oldPath :=
    plannedEntry.oldPath ▸ named file present
  rw [newPath]
  refine rootOk.append (oldOk.sublist ?_)
  rw [oldPath]
  exact List.sublist_append_right srcPath rest

end Moving

/-! ## Every step -/

section Steps

variable
  {World : Type}
  {backend : Backend World}
  {rules : FieldRules}
  {entryOk : FileMetadata → Prop}
  {requestOk : CString × CString × CString → Prop}

namespace FieldsHold

variable {ns after : NameServer}

theorem of_same
    (holds : FieldsHold rules entryOk requestOk ns)
    (files : after.files = ns.files)
    (requests : after.accessRequests = ns.accessRequests)
    (servers : after.storageServers = ns.storageServers) :
    FieldsHold rules entryOk requestOk after where
  entries := files ▸ holds.entries
  requests := requests ▸ holds.requests
  servers := connectionsOf_of_servers servers ▸ holds.servers

theorem of_onlyCache
    (holds : FieldsHold rules entryOk requestOk ns)
    (only : OnlyCacheChanged ns after) :
    FieldsHold rules entryOk requestOk after :=
  holds.of_same only.files only.sameRest.1 only.storageServers

theorem changeFile
    (holds : FieldsHold rules entryOk requestOk ns)
    {change : FileMetadata → FileMetadata}
    (survives : ∀ file, entryOk file → entryOk (change file))
    (index : Nat) :
    FieldsHold rules entryOk requestOk
      (DistributedDocs.changeFile index change ns) where
  entries file member := by
    rcases mem_modify member with old | ⟨former, present, rfl⟩
    · exact holds.entries file old
    · exact survives former (holds.entries former present)
  requests := holds.requests
  servers := holds.servers

theorem changeRequest
    (holds : FieldsHold rules entryOk requestOk ns)
    {change : AccessRequest → AccessRequest}
    (same : ∀ req, partiesOf (change req) = partiesOf req)
    (position : Nat) :
    FieldsHold rules entryOk requestOk
      (DistributedDocs.changeRequest position change ns) where
  entries := holds.entries
  requests := by
    rw [parties_changeRequest position same]
    exact holds.requests
  servers := holds.servers

theorem changeServer
    (holds : FieldsHold rules entryOk requestOk ns)
    {change : StorageServerInfo → StorageServerInfo}
    (keeps : ∀ ss, endpointOf (change ss) = endpointOf ss)
    (address : Nat) :
    FieldsHold rules entryOk requestOk
      (DistributedDocs.changeServer address change ns) where
  entries := holds.entries
  requests := holds.requests
  servers := by
    rw [connectionsOf_changeServer keeps]
    exact holds.servers

theorem select
    (holds : FieldsHold rules entryOk requestOk ns) :
    FieldsHold rules entryOk requestOk (nsSelectStorageServerBalanced ns).2 where
  entries := files_select ns ▸ holds.entries
  requests := (sameRest_select ns).1 ▸ holds.requests
  servers := connectionsOf_select ns ▸ holds.servers

theorem registerFile
    (survive : Survive rules entryOk requestOk)
    (holds : FieldsHold rules entryOk requestOk ns)
    {file : FileMetadata}
    (isOk : entryOk file)
    (filename : CString) :
    FieldsHold rules entryOk requestOk
      (DistributedDocs.registerFile filename file ns) where
  entries other member := by
    rw [files_registerFile, List.mem_append, List.mem_singleton] at member
    rcases member with present | rfl
    · exact holds.entries other present
    · exact survive.relabelled file _ isOk
  requests := (rest_registerFile filename file ns).1 ▸ holds.requests
  servers :=
    connectionsOf_of_servers (storageServers_registerFile filename file ns) ▸
      holds.servers

theorem removeFileMetadataLocked
    (holds : FieldsHold rules entryOk requestOk ns)
    (coherent : Coherent ns)
    (filename : CString) :
    FieldsHold rules entryOk requestOk
      (DistributedDocs.removeFileMetadataLocked filename ns).2 where
  entries file member :=
    holds.entries file
      ((mem_files_removeFileMetadataLocked coherent filename file).mp
        member).1
  requests := (sameRest_remove filename ns).1 ▸ holds.requests
  servers :=
    connectionsOf_of_servers (storageServers_remove filename ns) ▸
      holds.servers

theorem applyDelete
    (holds : FieldsHold rules entryOk requestOk ns)
    (registry : Registry ns)
    (plan : List DeletePlanEntry) :
    FieldsHold rules entryOk requestOk
      (DistributedDocs.applyDelete plan ns) where
  entries file member :=
    holds.entries file (((registry.applyDelete plan).2 file).mp member).1
  requests := by
    rw [parties_applyDelete]
    exact holds.requests
  servers := by
    rw [connectionsOf_applyDelete]
    exact holds.servers

/-- Applying a plan of `MOVE` gives allowed names. -/
theorem applyMove
    (survive : Survive rules entryOk requestOk)
    (holds : FieldsHold rules entryOk requestOk ns)
    (coherent : Coherent ns)
    {now : Int}
    {username srcPath destFolder destination : CString}
    {source : FileMetadata}
    {baseName finalRoot : CString}
    {plan : List MovePlanEntry}
    (timeOk : rules.timeOk now)
    (userOk : rules.userOk username)
    (srcOk : rules.FieldOk srcPath)
    (destOk : rules.FieldOk destFolder)
    (normalized : nsNormalizeDestination destFolder = some destination)
    (planned :
      PlannedMoves ns username srcPath destination source baseName finalRoot
        plan) :
    FieldsHold rules entryOk requestOk
      (DistributedDocs.applyMove now username plan ns) where
  entries renamed member := by
    have apart := planned.renamesApart coherent.names_nodup
    rw [(coherent.applyMove now username apart).2] at member
    obtain ⟨file, present, rfl⟩ := List.mem_map.mp member
    rw [foldl_renamedEntry apart fun _ held => planned.oldPath_mem held]
    split
    · next entry found =>
      have held := List.mem_of_find?_eq_some found
      obtain ⟨_, _, _, plannedEntry⟩ := planned.exists_file held
      have newPathOk : rules.FieldOk entry.newPath :=
        FieldRules.fieldOk_newPath survive.slash srcOk destOk normalized
          planned
          (fun other isEntry => survive.named other (holds.entries other isEntry))
          held
      exact survive.renamed now username entry.newPath file timeOk userOk
        newPathOk plannedEntry.valid (holds.entries file present)
    · exact holds.entries file present
  requests := (sameRest_applyMove now username plan ns).1 ▸ holds.requests
  servers :=
    connectionsOf_of_servers (storageServers_applyMove now username plan ns) ▸
      holds.servers

end FieldsHold

section Commands

variable
  {start final : NsState World}
  {now : Int}
  {username : CString}

theorem FieldsHold.looked
    (holds : FieldsHold rules entryOk requestOk start.ns)
    (known : Looked start final) :
    FieldsHold rules entryOk requestOk final.ns :=
  holds.of_onlyCache known.onlyCache

theorem FieldsHold.asked
    {α : Type}
    {program : NsHandler World α}
    {outcome : α}
    {asking answered : NsState World}
    (holds : FieldsHold rules entryOk requestOk asking.ns)
    (onlyAsks : OnlyAsks program)
    (ran : program asking = .ok outcome answered) :
    FieldsHold rules entryOk requestOk answered.ns := by
  rw [onlyAsks.ns_eq ran]
  exact holds

/-- Making an entry for a user. -/
theorem FieldsHold.registered
    (survive : Survive rules entryOk requestOk)
    (holds : FieldsHold rules entryOk requestOk start.ns)
    (timeOk : rules.timeOk now)
    (userOk : rules.userOk username)
    {filename : CString}
    (nameOk : rules.FieldOk filename)
    (valid : validateFilename filename = true)
    {looked : NsState World}
    (known : Looked start looked)
    {target : StorageServerInfo}
    (selected : (nsSelectStorageServerBalanced looked.ns).1 = some target) :
    FieldsHold rules entryOk requestOk
      (DistributedDocs.registered now username filename target looked).ns := by
  obtain ⟨-, ss, member, same⟩ :=
    FileServers.InAgreement.target_known known selected
  have serverOk : rules.serverOk target.clientIp target.clientPort := by
    have isOk := holds.servers _ (List.mem_map_of_mem member)
    rw [same] at isOk
    exact isOk
  exact (holds.looked known).select.registerFile survive
    (survive.created now username filename target timeOk userOk nameOk valid
      serverOk) filename

theorem FieldsHold.granted
    (survive : Survive rules entryOk requestOk)
    (holds : FieldsHold rules entryOk requestOk start.ns)
    {req : AccessRequest}
    (fromOk : rules.userOk req.fromUser)
    (index position : Nat) :
    FieldsHold rules entryOk requestOk
      (DistributedDocs.granted index position req start).ns := by
  have filed : ∀ entry : AccessRequest,
      partiesOf { entry with isPending := false } = partiesOf entry :=
    fun _ => rfl
  exact (holds.changeFile
    (fun file isOk => survive.granted file _ _ _ isOk fromOk)
    index).changeRequest filed position

theorem FieldsHold.ungranted
    (survive : Survive rules entryOk requestOk)
    (holds : FieldsHold rules entryOk requestOk start.ns)
    (req : AccessRequest)
    (index position : Nat) :
    FieldsHold rules entryOk requestOk
      (DistributedDocs.ungranted index position req start).ns := by
  have filed : ∀ entry : AccessRequest,
      partiesOf { entry with isPending := true } = partiesOf entry :=
    fun _ => rfl
  exact (holds.changeFile (fun file => survive.revoked file _)
    index).changeRequest filed position

/-- Every effect of an allowed command leaves the fields as they may be. -/
theorem FieldsHold.effect
    (survive : Survive rules entryOk requestOk)
    (holds : FieldsHold rules entryOk requestOk start.ns)
    (registry : Registry start.ns)
    {command : NsCommand}
    (timeOk : rules.timeOk now)
    (userOk : rules.userOk username)
    (fieldsOk : ∀ field ∈ command.message, rules.FieldOk field)
    (effect :
      CommandEffect backend now username start command final) :
    FieldsHold rules entryOk requestOk final.ns := by
  cases effect with
  | looked known =>
      exact holds.looked known
  | unplaced known =>
      exact (holds.looked known).select
  | createRefused known valid room fresh selected asked =>
      have nameOk := fieldsOk _ (List.mem_cons_of_mem _ List.mem_cons_self)
      have entered :=
        (holds.registered survive timeOk userOk nameOk valid known
          selected).asked (onlyAsks_createOnStorage _ _) asked
      have coherent :=
        ((registry.registered now username _ known valid fresh).asked
          (onlyAsks_createOnStorage _ _) asked).coherent
      exact entered.removeFileMetadataLocked coherent _
  | created known valid room fresh selected asked =>
      have nameOk := fieldsOk _ (List.mem_cons_of_mem _ List.mem_cons_self)
      have keeps :
          ∀ ss : StorageServerInfo,
            endpointOf { ss with totalFiles := ss.totalFiles + 1 } =
              endpointOf ss :=
        fun _ => rfl
      exact ((holds.registered survive timeOk userOk nameOk valid known
        selected).asked (onlyAsks_createOnStorage _ _) asked).changeServer
          keeps _
  | folder known valid room fresh =>
      have pathOk := fieldsOk _ (List.mem_cons_of_mem _ List.mem_cons_self)
      exact (holds.looked known).registerFile survive
        (survive.folder now username _ timeOk userOk pathOk valid) _
  | moveRefused known normalized planned renames =>
      have same :=
        ns_of_staysWithin (sameRegistry_renameOnStorage [] _)
          (congrArg finalState renames)
      rw [finalState_error] at same
      rw [same]
      exact holds.looked known
  | moved known normalized planned renames =>
      have same :=
        ns_of_staysWithin (sameRegistry_renameOnStorage [] _)
          (congrArg finalState renames)
      have after :=
        (holds.looked known).applyMove survive (registry.looked known).coherent
          timeOk userOk
          (fieldsOk _ (List.mem_cons_of_mem _ List.mem_cons_self))
          (fieldsOk _
            (List.mem_cons_of_mem _
              (List.mem_cons_of_mem _ List.mem_cons_self)))
          normalized (planned.of_looked known)
      rw [finalState_ok] at same
      rw [← same] at after
      exact after
  | deleteRefused known planned deletes =>
      have same :=
        ns_of_staysWithin (sameRegistry_deleteOnStorage _)
          (congrArg finalState deletes)
      rw [finalState_error] at same
      rw [same]
      exact holds.looked known
  | @deleted _ _ _ _ plan _ _ known planned deletes =>
      have same :=
        ns_of_staysWithin (sameRegistry_deleteOnStorage _)
          (congrArg finalState deletes)
      have after :=
        (holds.looked known).applyDelete (registry.looked known) plan
      rw [finalState_ok] at same
      rw [← same] at after
      exact after
  | copyAnswered known destination home asked =>
      exact (holds.looked known).asked (OnlyAsks.sendAndWait _ _) asked
  | copied known source destination home asked =>
      exact ((holds.looked known).asked (OnlyAsks.sendAndWait _ _)
        asked).changeFile
          (fun file => survive.accessed now username file timeOk userOk) _
  | located known entry =>
      exact ((holds.looked known).changeFile
        (fun file => survive.located now username _ file timeOk userOk)
          _).of_onlyCache (onlyCacheChanged_fileCacheStore _ _ _)
  | requested known valid parsed entry =>
      have seen := holds.looked known
      have nameOk := fieldsOk _ (List.mem_cons_of_mem _ List.mem_cons_self)
      have isOk := holds.entries _ (List.mem_of_getElem? entry.held)
      refine ⟨seen.entries, fun parties member => ?_, seen.servers⟩
      rw [NsState.onRegistry, List.map_append, List.mem_append,
        List.map_singleton, List.mem_singleton] at member
      rcases member with old | rfl
      · exact seen.requests parties old
      · exact survive.requested username _ _ _ _ _ userOk nameOk valid isOk
  | approveRefused known request numbered isPending addressed entry asked =>
      have fromOk :=
        survive.requester _ _ _
          (holds.requests _
            (List.mem_map_of_mem (List.mem_of_getElem? request)))
      exact (((holds.looked known).granted survive fromOk _ _).asked
        (onlyAsks_approveOnStorage _ _) asked).ungranted survive _ _ _
  | approved known request numbered isPending addressed entry asked =>
      have fromOk :=
        survive.requester _ _ _
          (holds.requests _
            (List.mem_map_of_mem (List.mem_of_getElem? request)))
      exact ((holds.looked known).granted survive fromOk _ _).asked
        (onlyAsks_approveOnStorage _ _) asked
  | rejected known =>
      have filed : ∀ req : AccessRequest,
          partiesOf { req with isPending := false } = partiesOf req :=
        fun _ => rfl
      exact (holds.looked known).changeRequest filed _
  | notAdded known valid parsed entry owned other full =>
      exact (holds.looked known).changeFile
        (fun file =>
          (survive.granted file _ _ _ · (survive.validUser _ valid))) _
  | addRefused known valid parsed entry owned other asked =>
      exact (((holds.looked known).changeFile
        (fun file =>
          (survive.granted file _ _ _ · (survive.validUser _ valid))) _).asked
            (onlyAsks_accessOnStorage _ _) asked).changeFile
              (fun file => survive.revoked file _) _
  | added known valid parsed entry owned other room asked =>
      exact ((holds.looked known).changeFile
        (fun file =>
          (survive.granted file _ _ _ · (survive.validUser _ valid))) _).asked
            (onlyAsks_accessOnStorage _ _) asked
  | removeRefused known valid entry owned listed asked =>
      exact (((holds.looked known).changeFile
        (fun file => survive.revoked file _) _).asked
          (onlyAsks_accessOnStorage _ _) asked).changeFile
            (fun file =>
              (survive.granted file _ _ _ · (survive.validUser _ valid))) _
  | removed known valid entry owned listed asked =>
      exact ((holds.looked known).changeFile
        (fun file => survive.revoked file _) _).asked
          (onlyAsks_accessOnStorage _ _) asked

end Commands

/-- `SS_HAS_FILE` leaves the fields as they may be. -/
theorem FieldsHold.applyHasFile
    (survive : Survive rules entryOk requestOk)
    {ns after : NameServer}
    (holds : FieldsHold rules entryOk requestOk ns)
    {now : Int}
    {ss : StorageServerInfo}
    {msg : List CString}
    (timeOk : rules.timeOk now)
    (serverOk : rules.serverOk ss.clientIp ss.clientPort)
    (hasFileOk :
      ∀ hasFile, hasFileOf msg = some hasFile → rules.HasFileOk hasFile)
    (applied : DistributedDocs.applyHasFile now ss msg ns = .ok after) :
    FieldsHold rules entryOk requestOk after := by
  unfold DistributedDocs.applyHasFile at applied
  split at applied
  · cases applied
  · next hasFile read =>
    split at applied
    · cases applied
    · next validName =>
      split at applied
      · cases applied
      · next validOwner =>
        have recorded : isRecorded hasFile = true := by
          simp only [Bool.and_eq_true, decide_eq_true_eq, Bool.not_eq_true',
            not_and, Bool.not_eq_false] at validName validOwner
          by_cases noOwner : hasFile.owner = []
          · simp [isRecorded, validName, noOwner]
          · simp [isRecorded, validName, validOwner noOwner]
        have fieldsOk := hasFileOk hasFile read
        split at applied
        · cases applied
          exact (holds.changeFile
            (fun file =>
              survive.updated now ss hasFile file timeOk serverOk fieldsOk
                recorded) _).of_onlyCache (onlyCacheChanged_fileCacheStore _ _ _)
        · split at applied
          · cases applied
          · cases applied
            exact holds.registerFile survive
              (survive.reported now ss hasFile timeOk serverOk fieldsOk
                recorded) _

/-- `WRITE_COMPLETE` leaves the fields as they may be. -/
theorem FieldsHold.applyWriteComplete
    (survive : Survive rules entryOk requestOk)
    {ns : NameServer}
    (holds : FieldsHold rules entryOk requestOk ns)
    {now : Int}
    (ss : StorageServerInfo)
    {msg : List CString}
    (timeOk : rules.timeOk now)
    (countsOk : ∀ field ∈ msg, rules.countOk (atoll field)) :
    FieldsHold rules entryOk requestOk
      (DistributedDocs.applyWriteComplete now ss msg ns) := by
  unfold DistributedDocs.applyWriteComplete
  split
  · next type filename size words chars rest =>
    have sizeOk := countsOk size (by simp)
    have wordsOk := countsOk words (by simp)
    have charsOk := countsOk chars (by simp)
    simp only
    split
    · next index file found =>
      have counted :=
        (holds.changeFile
          (fun file =>
            survive.counted now _ _ _ file timeOk sizeOk wordsOk charsOk)
          index).of_onlyCache (onlyCacheChanged_fileCacheStore filename index _)
      have keeps :
          ∀ server,
            endpointOf
                (resized (toLongLong (atoll size - file.size)) server) =
              endpointOf server :=
        fun _ => rfl
      split
      · exact counted.changeServer keeps _
      · exact counted
    · exact holds
  · exact holds

/-- One allowed action. -/
theorem FieldsHold.nsStep
    (survive : Survive rules entryOk requestOk)
    {state : NsState World}
    (holds : FieldsHold rules entryOk requestOk state.ns)
    (registry : Registry state.ns)
    {action : NsAction World}
    (allowed : rules.Allows action) :
    FieldsHold rules entryOk requestOk
      (DistributedDocs.nsStep backend state action).ns := by
  cases action with
  | command now username command =>
      obtain ⟨timeOk, userOk, fieldsOk⟩ := allowed
      exact holds.effect survive registry timeOk userOk fieldsOk
        (effect_of_command backend now username registry.coherent command)
  | hasFile now ss msg =>
      obtain ⟨timeOk, serverOk, fieldsOk⟩ := allowed
      unfold DistributedDocs.nsStep
      simp only
      split
      · next applied =>
        exact holds.applyHasFile survive timeOk serverOk fieldsOk
          applied
      · exact holds
  | filesDone address =>
      have keeps :
          ∀ ss, endpointOf (recounted state.ns ss) = endpointOf ss :=
        fun _ => rfl
      unfold DistributedDocs.nsStep NsState.onRegistry
      simp only [nsRecalculateServerLoad_eq]
      exact holds.changeServer keeps address
  | writeComplete now ss msg =>
      exact holds.applyWriteComplete survive ss allowed.1 allowed.2
  | servers storageServers =>
      refine ⟨holds.entries, holds.requests, fun endpoint member => ?_⟩
      obtain ⟨ss, isServer, rfl⟩ := List.mem_map.mp member
      exact allowed ss isServer
  | storage world =>
      exact holds

/-- The fields of every reachable registry, if every action is allowed. -/
theorem fieldsHold_reachable
    (survive : Survive rules entryOk requestOk)
    (backend : Backend World)
    (world : World)
    {actions : List (NsAction World)}
    (allowed : ∀ action ∈ actions, rules.Allows action) :
    FieldsHold rules entryOk requestOk
      (runFrom (nsStep backend) ⟨nsInit, world⟩ actions).ns := by
  have initially : FieldsHold rules entryOk requestOk nsInit :=
    ⟨by simp [nsInit], by simp [nsInit], by simp [nsInit, connectionsOf]⟩
  have preserved :
      ∀ (state : NsState World) (action : NsAction World),
        Registry state.ns ∧ FieldsHold rules entryOk requestOk state.ns →
          rules.Allows action →
            Registry (nsStep backend state action).ns ∧
              FieldsHold rules entryOk requestOk
                (nsStep backend state action).ns :=
    fun _ action both isAllowed =>
      ⟨both.1.nsStep action, both.2.nsStep survive both.1 isAllowed⟩
  exact (GuardedRun.invariant preserved ⟨registry_nsInit, initially⟩
    (.of_forall_mem allowed)).2

end Steps

end DistributedDocs
