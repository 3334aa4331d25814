import DistributedDocs.GuardedRun
import DistributedDocs.NameServerEffects

namespace DistributedDocs

/-!
# Every reachable registry is coherent

Runs of the name server against any storage servers whatever.  Each effect of a
command and each message of a storage server keeps the registry coherent, so a
lookup always finds what a plain scan of the file table finds.
-/

/--
What happens at the name server.  `servers` is any change of the list of
storage servers, `storage` any step of the storage servers by themselves.
-/
inductive NsAction (World : Type) where
  | command (now : Int) (username : CString) (command : NsCommand)
  | hasFile (now : Int) (ss : StorageServerInfo) (msg : List CString)
  | filesDone (address : Nat)
  | writeComplete (now : Int) (ss : StorageServerInfo) (msg : List CString)
  | servers (storageServers : List StorageServerInfo)
  | storage (world : World)

section Steps

variable {World : Type} (backend : Backend World)

/-- One step of the name server. -/
def nsStep (state : NsState World) : NsAction World → NsState World
  | .command now username command =>
      finalState (command.handler backend now username state)
  | .hasFile now ss msg =>
      match applyHasFile now ss msg state.ns with
      | .ok ns => { state with ns := ns }
      | .error _ => state
  | .filesDone address => state.onRegistry (nsRecalculateServerLoad address)
  | .writeComplete now ss msg =>
      state.onRegistry (applyWriteComplete now ss msg)
  | .servers storageServers =>
      state.onRegistry fun ns => { ns with storageServers := storageServers }
  | .storage world => { state with world := world }

end Steps

/-! ## Changes of an entry -/

/-- Granting access changes the access lists only. -/
theorem fileAddAccess_eq
    (file : FileMetadata)
    (user : CString)
    (grantRead grantWrite : Bool) :
    ∃ readers writers,
      (fileAddAccess file user grantRead grantWrite).2 =
        { file with
          readAccessUsers := readers
          writeAccessUsers := writers } := by
  unfold fileAddAccess
  split
  · next readDone reading isReading =>
    have afterReading :
        ∃ readers, reading = { file with readAccessUsers := readers } := by
      split at isReading
      · split at isReading
        · obtain ⟨_, rfl⟩ := isReading
          exact ⟨_, rfl⟩
        · obtain ⟨_, rfl⟩ := isReading
          exact ⟨_, rfl⟩
      · obtain ⟨_, rfl⟩ := isReading
        exact ⟨_, rfl⟩
    obtain ⟨readers, rfl⟩ := afterReading
    split
    · split
      · exact ⟨_, _, rfl⟩
      · exact ⟨readers, file.writeAccessUsers, rfl⟩
    · exact ⟨readers, file.writeAccessUsers, rfl⟩

theorem filename_fileAddAccess
    (file : FileMetadata)
    (user : CString)
    (grantRead grantWrite : Bool) :
    (fileAddAccess file user grantRead grantWrite).2.filename =
      file.filename := by
  obtain ⟨readers, writers, same⟩ :=
    fileAddAccess_eq file user grantRead grantWrite
  rw [same]

theorem filename_fileRemoveAccess
    (file : FileMetadata)
    (user : CString) :
    (fileRemoveAccess file user).2.filename = file.filename :=
  rfl

theorem filename_accessedMetadata
    (now : Int)
    (username : CString)
    (file : FileMetadata) :
    (accessedMetadata now username file).filename = file.filename :=
  rfl

theorem filename_updatedMetadata
    (now : Int)
    (ss : StorageServerInfo)
    (msg : HasFile)
    (file : FileMetadata) :
    (updatedMetadata now ss msg file).filename = file.filename :=
  rfl

theorem filename_countedMetadata
    (now size words chars : Int)
    (file : FileMetadata) :
    (countedMetadata now size words chars file).filename = file.filename :=
  rfl

theorem filename_locatedMetadata
    (now : Int)
    (username operation : CString)
    (file : FileMetadata) :
    (locatedMetadata now username operation file).filename =
      file.filename := by
  unfold locatedMetadata
  split <;> rfl

/-! ## The registry after each kind of change -/

theorem length_lt_of_nsValidateLogicalPath
    {path : CString}
    (valid : nsValidateLogicalPath path = true) :
    path.length < maxFilenameLength := by
  simp only [nsValidateLogicalPath, Bool.and_eq_true] at valid
  exact length_of_validateFilename valid.1.1

theorem nonempty_of_nsValidateLogicalPath
    {path : CString}
    (valid : nsValidateLogicalPath path = true) :
    path ≠ [] := by
  simp only [nsValidateLogicalPath, Bool.and_eq_true] at valid
  exact nonempty_of_validateFilename valid.1.1

theorem files_registerFile
    (filename : CString)
    (file : FileMetadata)
    (ns : NameServer) :
    (registerFile filename file ns).files =
      ns.files ++ [{ file with document := ns.nextDocument }] := by
  unfold registerFile
  simp only
  rw [(onlyCacheChanged_fileCacheStore _ _ _).files]
  rfl

namespace Registry

variable
  {ns : NameServer}
  (registry : Registry ns)

include registry

theorem onlyCacheChanged
    {after : NameServer}
    (coherent : Coherent after)
    (only : OnlyCacheChanged ns after) :
    Registry after :=
  ⟨coherent, only.files ▸ registry.named⟩

theorem changeFile
    {change : FileMetadata → FileMetadata}
    (sameName : ∀ file, (change file).filename = file.filename)
    (index : Nat) :
    Registry (DistributedDocs.changeFile index change ns) where
  coherent := registry.coherent.changeFile sameName index
  named file member := by
    have member :
        file.filename ∈
          (ns.files.modify index change).map FileMetadata.filename :=
      List.mem_map_of_mem member
    rw [names_modify sameName] at member
    obtain ⟨other, present, same⟩ := List.mem_map.mp member
    exact same ▸ registry.named other present

theorem registerFile
    {filename : CString}
    {file : FileMetadata}
    (named : file.filename = filename)
    (nonempty : filename ≠ [])
    (fresh : plainScan ns.files filename = none) :
    Registry (DistributedDocs.registerFile filename file ns) where
  coherent := registry.coherent.registerFile named fresh
  named other member := by
    rw [files_registerFile, List.mem_append, List.mem_singleton] at member
    rcases member with present | rfl
    · exact registry.named other present
    · exact named ▸ nonempty

theorem fileCacheStore
    {filename : CString}
    {index : Nat}
    (found : plainScan ns.files filename = some index) :
    Registry (DistributedDocs.fileCacheStore filename index ns) :=
  registry.onlyCacheChanged
    (registry.coherent.fileCacheStore (short_of_plainScan found) found)
    (onlyCacheChanged_fileCacheStore filename index ns)

/-- A change that keeps the names, then a fresh slot for the entry. -/
theorem changeFile_cached
    {change : FileMetadata → FileMetadata}
    (sameName : ∀ file, (change file).filename = file.filename)
    {filename : CString}
    {index : Nat}
    (found : plainScan ns.files filename = some index) :
    Registry
      (DistributedDocs.fileCacheStore filename index
        (DistributedDocs.changeFile index change ns)) := by
  refine (registry.changeFile sameName index).fileCacheStore ?_
  rw [DistributedDocs.changeFile, ← found]
  exact plainScan_congr (names_modify sameName index)

theorem select :
    Registry (nsSelectStorageServerBalanced ns).2 := by
  unfold nsSelectStorageServerBalanced
  simp only
  split <;> exact registry.of_same rfl rfl rfl

theorem changeServer
    (address : Nat)
    (change : StorageServerInfo → StorageServerInfo) :
    Registry (DistributedDocs.changeServer address change ns) :=
  registry.of_same rfl rfl rfl

theorem changeRequest
    (position : Nat)
    (change : AccessRequest → AccessRequest) :
    Registry (DistributedDocs.changeRequest position change ns) :=
  registry.of_same rfl rfl rfl

/-- Applying a plan of `MOVE` keeps the registry. -/
theorem applyMove
    (now : Int)
    (username : CString)
    {srcPath destination : CString}
    {source : FileMetadata}
    {baseName finalRoot : CString}
    {plan : List MovePlanEntry}
    (planned :
      PlannedMoves ns username srcPath destination source baseName finalRoot
        plan) :
    Registry (DistributedDocs.applyMove now username plan ns) := by
  obtain ⟨coherent, files⟩ :=
    registry.coherent.applyMove now username
      (planned.renamesApart registry.coherent.names_nodup)
  refine ⟨coherent, ?_⟩
  rw [files]
  intro renamed member
  obtain ⟨file, present, rfl⟩ := List.mem_map.mp member
  rw [foldl_renamedEntry
    (planned.renamesApart registry.coherent.names_nodup)
    fun _ held => planned.oldPath_mem held]
  split
  · next entry found =>
    have held := List.mem_of_find?_eq_some found
    obtain ⟨_, _, _, plannedEntry⟩ := planned.exists_file held
    have short := (planned.paths held).1
    have nonempty := nonempty_of_nsValidateLogicalPath plannedEntry.valid
    simpa [renamedMetadata, safeStrcpy_of_short short] using nonempty
  · exact registry.named file present

end Registry

/-! ## Every step keeps the registry -/

section Preservation

variable
  {World : Type}
  {backend : Backend World}
  {now : Int}
  {username : CString}
  {start final : NsState World}
  {command : NsCommand}

theorem Registry.looked
    (registry : Registry start.ns)
    (known : Looked start final) :
    Registry final.ns :=
  registry.onlyCacheChanged known.coherent known.onlyCache

theorem Looked.plainScan_eq
    (known : Looked start final)
    (filename : CString) :
    plainScan final.ns.files filename = plainScan start.ns.files filename := by
  rw [known.onlyCache.files]

/-- What the plan says of the start it also says of a later look. -/
theorem PlannedMoves.of_looked
    {srcPath destination : CString}
    {source : FileMetadata}
    {baseName finalRoot : CString}
    {plan : List MovePlanEntry}
    (planned :
      PlannedMoves start.ns username srcPath destination source baseName
        finalRoot plan)
    (known : Looked start final) :
    PlannedMoves final.ns username srcPath destination source baseName
      finalRoot plan := by
  have only := known.onlyCache
  have files := only.files
  exact
    { present := files ▸ planned.present
      named := planned.named
      intoFolder := fun notRoot => by
        rw [files]
        exact planned.intoFolder notRoot
      baseName_eq := planned.baseName_eq
      finalRoot_eq := planned.finalRoot_eq
      different := planned.different
      notInside := planned.notInside
      entries := by
        rw [files]
        exact planned.entries.imp fun file entry plannedEntry =>
          { owned := plannedEntry.owned
            oldPath := plannedEntry.oldPath
            newPath := plannedEntry.newPath
            valid := plannedEntry.valid
            notTaken := by
              rw [files]
              exact plannedEntry.notTaken
            isDirectory := plannedEntry.isDirectory
            folder := plannedEntry.folder
            home := fun notFolder => by
              rw [homeOf_onlyCacheChanged only]
              exact plannedEntry.home notFolder
            flat := plannedEntry.flat } }

/-- The registry of a program that has only asked. -/
theorem Registry.asked
    {α : Type}
    {program : NsHandler World α}
    {outcome : α}
    {asking answered : NsState World}
    (registry : Registry asking.ns)
    (onlyAsks : OnlyAsks program)
    (ran : program asking = .ok outcome answered) :
    Registry answered.ns := by
  rw [onlyAsks.ns_eq ran]
  exact registry

theorem ns_of_staysWithin
    {α : Type}
    {program : NsHandler World α}
    (within : StaysWithin SameRegistry program)
    {state after : NsState World}
    (ended : finalState (program state) = after) :
    after.ns = state.ns :=
  ended ▸ within state

variable (now username) in
/-- Making an entry of a valid new name. -/
theorem Registry.registered
    (registry : Registry start.ns)
    {filename : CString}
    (target : StorageServerInfo)
    {looked : NsState World}
    (known : Looked start looked)
    (valid : validateFilename filename = true)
    (fresh : plainScan start.ns.files filename = none) :
    Registry
      (DistributedDocs.registered now username filename target looked).ns := by
  have selected := (registry.looked known).select
  have sameFiles :
      (nsSelectStorageServerBalanced looked.ns).2.files =
        start.ns.files := by
    rw [← known.onlyCache.files]
    unfold nsSelectStorageServerBalanced
    simp only
    split <;> rfl
  have short := length_of_validateFilename valid
  exact selected.registerFile (safeStrcpy_of_short short)
    (nonempty_of_validateFilename valid) (by rw [sameFiles]; exact fresh)

/-- Every effect of a command keeps the registry. -/
theorem Registry.effect
    (registry : Registry start.ns)
    (effect :
      CommandEffect backend now username start command final) :
    Registry final.ns := by
  cases effect with
  | looked known =>
      exact registry.looked known
  | unplaced known =>
      exact (registry.looked known).select
  | createRefused known valid room fresh selected asked =>
      exact ((registry.registered now username _ known valid fresh).asked
        (onlyAsks_createOnStorage _ _) asked).removeFileMetadataLocked _
  | created known valid room fresh selected asked =>
      exact ((registry.registered now username _ known valid fresh).asked
        (onlyAsks_createOnStorage _ _) asked).changeServer _ _
  | folder known valid room fresh =>
      have short := length_lt_of_nsValidateLogicalPath valid
      exact (registry.looked known).registerFile (safeStrcpy_of_short short)
        (nonempty_of_nsValidateLogicalPath valid)
        ((known.plainScan_eq _).trans fresh)
  | moveRefused known normalized planned renames =>
      have same :=
        ns_of_staysWithin (sameRegistry_renameOnStorage [] _)
          (congrArg finalState renames)
      rw [finalState_error] at same
      rw [same]
      exact registry.looked known
  | moved known normalized planned renames =>
      have same :=
        ns_of_staysWithin (sameRegistry_renameOnStorage [] _)
          (congrArg finalState renames)
      have after :=
        (registry.looked known).applyMove now username
          (planned.of_looked known)
      rw [finalState_ok] at same
      rw [← same] at after
      exact after
  | deleteRefused known planned deletes =>
      have same :=
        ns_of_staysWithin (sameRegistry_deleteOnStorage _)
          (congrArg finalState deletes)
      rw [finalState_error] at same
      rw [same]
      exact registry.looked known
  | deleted known planned deletes =>
      have same :=
        ns_of_staysWithin (sameRegistry_deleteOnStorage _)
          (congrArg finalState deletes)
      have emptied := registry.looked known
      rw [finalState_ok] at same
      rw [← same] at emptied
      exact (emptied.applyDelete _).1
  | copyAnswered known destination home asked =>
      exact (registry.looked known).asked (OnlyAsks.sendAndWait _ _) asked
  | copied known source destination home asked =>
      exact ((registry.looked known).asked (OnlyAsks.sendAndWait _ _)
        asked).changeFile (filename_accessedMetadata now username) _
  | located known entry =>
      exact (registry.looked known).changeFile_cached
        (filename_locatedMetadata now username _)
        ((known.plainScan_eq _).trans entry.found)
  | requested known valid parsed entry =>
      exact (registry.looked known).of_same rfl rfl rfl
  | approveRefused known request numbered isPending addressed entry asked =>
      exact ((((registry.looked known).changeFile
        (fun file => filename_fileAddAccess file _ _ _) _).changeRequest
          _ _).asked (onlyAsks_approveOnStorage _ _) asked).changeFile
            (fun file => filename_fileRemoveAccess file _) _
              |>.changeRequest _ _
  | approved known request numbered isPending addressed entry asked =>
      exact (((registry.looked known).changeFile
        (fun file => filename_fileAddAccess file _ _ _) _).changeRequest
          _ _).asked (onlyAsks_approveOnStorage _ _) asked
  | rejected known =>
      exact (registry.looked known).changeRequest _ _
  | notAdded known valid parsed entry owned other full =>
      exact (registry.looked known).changeFile
        (fun file => filename_fileAddAccess file _ _ _) _
  | addRefused known valid parsed entry owned other asked =>
      exact (((registry.looked known).changeFile
        (fun file => filename_fileAddAccess file _ _ _) _).asked
          (onlyAsks_accessOnStorage _ _) asked).changeFile
            (fun file => filename_fileRemoveAccess file _) _
  | added known valid parsed entry owned other room asked =>
      exact ((registry.looked known).changeFile
        (fun file => filename_fileAddAccess file _ _ _) _).asked
          (onlyAsks_accessOnStorage _ _) asked
  | removeRefused known valid entry owned listed asked =>
      exact (((registry.looked known).changeFile
        (fun file => filename_fileRemoveAccess file _) _).asked
          (onlyAsks_accessOnStorage _ _) asked).changeFile
            (fun file => filename_fileAddAccess file _ _ _) _
  | removed known valid entry owned listed asked =>
      exact ((registry.looked known).changeFile
        (fun file => filename_fileRemoveAccess file _) _).asked
          (onlyAsks_accessOnStorage _ _) asked

/-- `SS_HAS_FILE` keeps the registry. -/
theorem Registry.applyHasFile
    {ns after : NameServer}
    (registry : Registry ns)
    {ss : StorageServerInfo}
    {msg : List CString}
    (applied : DistributedDocs.applyHasFile now ss msg ns = .ok after) :
    Registry after := by
  unfold DistributedDocs.applyHasFile at applied
  split at applied
  · cases applied
  · next hasFile _ =>
    split at applied
    · cases applied
    · next invalid =>
      have valid : validateFilename hasFile.filename = true := by
        simpa using invalid
      split at applied
      · cases applied
      · rw [registry.coherent.index_agrees] at applied
        split at applied
        · next index found =>
          cases applied
          rw [Option.filter_eq_some_iff] at found
          exact registry.changeFile_cached
            (filename_updatedMetadata now ss hasFile) found.1
        · next absent =>
          split at applied
          · cases applied
          · cases applied
            have short := length_of_validateFilename valid
            refine registry.registerFile (safeStrcpy_of_short short)
              (nonempty_of_validateFilename valid) ?_
            cases scanned : plainScan ns.files hasFile.filename with
            | none =>
                rfl
            | some index =>
                rw [scanned, Option.filter_some, if_pos] at absent
                · cases absent
                · simpa using lt_of_plainScan scanned

/-- `WRITE_COMPLETE` keeps the registry. -/
theorem Registry.applyWriteComplete
    {ns : NameServer}
    (registry : Registry ns)
    (ss : StorageServerInfo)
    (msg : List CString) :
    Registry (DistributedDocs.applyWriteComplete now ss msg ns) := by
  unfold DistributedDocs.applyWriteComplete
  split
  · rw [registry.coherent.index_agrees]
    simp only
    split
    · next index file found =>
      rw [Option.bind_eq_some_iff] at found
      obtain ⟨position, scanned, held⟩ := found
      rw [Option.map_eq_some_iff] at held
      obtain ⟨_, _, same⟩ := held
      cases same
      have counted :=
        fun size words chars => registry.changeFile_cached
          (filename_countedMetadata now size words chars) scanned
      split
      · exact (counted _ _ _).changeServer _ _
      · exact counted _ _ _
    · exact registry
  · exact registry

theorem Registry.nsStep
    {state : NsState World}
    (registry : Registry state.ns)
    (action : NsAction World) :
    Registry (DistributedDocs.nsStep backend state action).ns := by
  cases action with
  | command now username command =>
      exact registry.effect
        (effect_of_command backend now username registry.coherent command)
  | hasFile now ss msg =>
      unfold DistributedDocs.nsStep
      simp only
      split
      · next applied =>
        exact registry.applyHasFile applied
      · exact registry
  | filesDone address =>
      exact registry.changeServer _ _
  | writeComplete now ss msg =>
      exact registry.applyWriteComplete ss msg
  | servers storageServers =>
      exact registry.of_same rfl rfl rfl
  | storage world =>
      exact registry

end Preservation

theorem registry_nsInit : Registry nsInit where
  coherent :=
    { names_nodup := List.nodup_nil
      index_wellFormed := ChainedIndex.wellFormed_empty
      index_agrees := fun _ => rfl
      cache_sound := LookupCache.sound_of_free fun entry member => by
        rw [List.eq_of_mem_replicate member]
        rfl }
  named _ member := by cases member

/-- The registry in every state of a run is coherent. -/
theorem registry_reachable
    {World : Type}
    (backend : Backend World)
    (world : World)
    (actions : List (NsAction World)) :
    Registry (runFrom (nsStep backend) ⟨nsInit, world⟩ actions).ns := by
  have preserved :
      ∀ (state : NsState World) (action : NsAction World),
        Registry state.ns → Registry (nsStep backend state action).ns :=
    fun _ action registry => registry.nsStep action
  exact runFrom_invariant preserved registry_nsInit actions

/-! ## The lookup agrees with the scan -/

/-- What the index and the cache say about the file table. -/
structure LookupAgrees (ns : NameServer) : Prop where
  names_unique : (ns.files.map FileMetadata.filename).Nodup
  index_nodes :
    ∀ filename,
      ns.fileIndex.nodes.filter (fun node => node.key = filename) =
        ((plainScan ns.files filename).map fun index =>
          ⟨filename, index⟩).toList
  cache_positions :
    ∀ entry ∈ ns.fileCache, entry.valid = true →
      ns.files[entry.value]?.map FileMetadata.filename = some entry.key
  cached_once :
    ∀ (first second : Nat) (entry other : CacheEntry CString Nat),
      ns.fileCache[first]? = some entry →
        ns.fileCache[second]? = some other →
          entry.valid = true → other.valid = true →
            entry.key = other.key → first = second
  finds :
    ∀ (filename : CString) (index : Nat),
      (fileLookupLocked filename ns).1 = some index ↔
        index < ns.files.length ∧
          ns.files[index]?.map FileMetadata.filename = some filename
  finds_nothing :
    ∀ filename,
      (fileLookupLocked filename ns).1 = none ↔
        ¬∃ index, index < ns.files.length ∧
          ns.files[index]?.map FileMetadata.filename = some filename

theorem plainScan_eq_some_iff_map
    {files : List FileMetadata}
    (namesNodup : (files.map FileMetadata.filename).Nodup)
    (filename : CString)
    (index : Nat) :
    plainScan files filename = some index ↔
      index < files.length ∧
        files[index]?.map FileMetadata.filename = some filename := by
  rw [plainScan_eq_some_iff namesNodup]
  simp only [Option.map_eq_some_iff]
  refine ⟨fun found => ⟨?_, found⟩, And.right⟩
  obtain ⟨file, held, _⟩ := found
  exact (List.getElem?_eq_some_iff.mp held).1

theorem Coherent.lookupAgrees
    {ns : NameServer}
    (coherent : Coherent ns) :
    LookupAgrees ns where
  names_unique := coherent.names_nodup
  index_nodes filename := by
    rw [coherent.index_wellFormed.filter_nodes, ← coherent.index_agrees]
    rfl
  cache_positions entry member valid := by
    obtain ⟨slot, held⟩ := List.getElem?_of_mem member
    have cached := coherent.cache_sound.agrees slot entry held valid
    exact ((plainScan_eq_some_iff_map coherent.names_nodup _ _).mp cached).2
  cached_once := coherent.cache_sound.keys_apart
  finds filename index := by
    rw [coherent.fileLookupLocked_eq]
    exact plainScan_eq_some_iff_map coherent.names_nodup filename index
  finds_nothing filename := by
    rw [coherent.fileLookupLocked_eq, Option.eq_none_iff_forall_ne_some,
      not_exists]
    exact forall_congr' fun index =>
      not_congr (plainScan_eq_some_iff_map coherent.names_nodup filename index)

/--
In every reachable state, whatever the storage servers answer, the hash index
and the cache agree with the file table, and so does every lookup.
-/
theorem lookup_agrees_reachable
    {World : Type}
    (backend : Backend World)
    (world : World)
    (actions : List (NsAction World)) :
    LookupAgrees (runFrom (nsStep backend) ⟨nsInit, world⟩ actions).ns :=
  (registry_reachable backend world actions).coherent.lookupAgrees

/-! ## A simple storage server -/

/-- A storage server that accepts every request. -/
def acceptingStorage : Backend Unit :=
  fun _ fields world =>
    (match fields with
      | [] => .unparsable
      | type :: _ =>
          if type = str "CREATE_FILE" then .message [str "OK_CREATE"]
          else if type = str "DELETE_FILE" then .message [str "OK_DELETE"]
          else if type = str "SS_ADDACCESS" ∨ type = str "SS_REMACCESS" then
            .message [str "OK_ACCESS_CHANGED"]
          else .message [str "OK"],
      world)

/-- A connected storage server. -/
def someStorageServer : StorageServerInfo where
  address := 0
  clientIp := str "10.0.0.7"
  clientIp_short := by decide
  clientPort := 9001
  sockfd := 4
  isAlive := true
  totalBytes := 0
  totalFiles := 0

/-- Another storage server of the same host. -/
def secondStorageServer : StorageServerInfo :=
  { someStorageServer with address := 1, clientPort := 9002, sockfd := 5 }

end DistributedDocs
