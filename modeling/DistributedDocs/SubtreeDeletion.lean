import DistributedDocs.NamespaceTree

namespace DistributedDocs

/-!
# What a deletion takes out

`DELETE` plans for the target and, if it is a folder, for every entry below it,
and then removes the planned entries one by one while the table is repaired.
The result is the registry without exactly that subtree.
-/

/-! ## What a deletion should do -/

/-- The entry is the target, or below it if that is a folder. -/
def InSubtree (target file : FileMetadata) : Prop :=
  Along pathSeparator target.filename target.isDirectory file.filename

/-- The storage server of a file is connected. -/
def HomeConnected (ns : NameServer) (file : FileMetadata) : Prop :=
  ∃ ss ∈ ns.storageServers,
    ss.isAlive = true ∧ 0 ≤ ss.sockfd ∧
      strncmpEq ss.clientIp file.ssIp maxIpLength = true ∧
        ss.clientPort = file.ssPort

/--
The user may delete the target: everything in its subtree is the user's, and
the files in it can be reached.
-/
def Deletable
    (ns : NameServer)
    (username targetPath : CString)
    (target : FileMetadata) : Prop :=
  target ∈ ns.files ∧ target.filename = targetPath ∧
    ∀ file ∈ ns.files, InSubtree target file →
      strncmpEq file.owner username maxUsernameLength = true ∧
        (file.isDirectory = false → HomeConnected ns file)

/-- A request for one of the names is no longer pending. -/
def cancelledFor (names : List CString) (req : AccessRequest) :
    AccessRequest :=
  if req.isPending && decide (req.filename ∈ names) then
    { req with isPending := false }
  else
    req

/--
The entries outside the subtree are left, as they were; lookups find them and
nothing else, and the pending requests for what is gone have been cancelled.
-/
structure SubtreeDeleted
    (before after : NameServer)
    (target : FileMetadata) : Prop where
  remaining :
    ∀ file,
      file ∈ after.files ↔ file ∈ before.files ∧ ¬InSubtree target file
  names_unique : (after.files.map FileMetadata.filename).Nodup
  found :
    ∀ file ∈ before.files, ¬InSubtree target file →
      ∃ index,
        (fileLookupLocked file.filename after).1 = some index ∧
          after.files[index]? = some file
  gone :
    ∀ file ∈ before.files, InSubtree target file →
      (fileLookupLocked file.filename after).1 = none
  requests :
    ∃ names,
      (∀ name,
        name ∈ names ↔
          ∃ file ∈ before.files,
            InSubtree target file ∧ file.filename = name) ∧
        after.accessRequests =
          before.accessRequests.map (cancelledFor names)

/-- Every storage server deletes what it is asked to delete. -/
def AcceptsDeletes {World : Type} (backend : Backend World) : Prop :=
  ∀ address path world,
    ∃ arguments,
      (backend address [str "DELETE_FILE", path] world).1 =
        .message (str "OK_DELETE" :: arguments)

/-- The program returns a reply. -/
def Succeeds
    {World : Type}
    (result : EStateM.Result Refusal (NsState World) (List CString)) : Prop :=
  ∃ reply after, result = .ok reply after

/-! ## Planning -/

theorem takenAlong_iff_inSubtree (target file : FileMetadata) :
    takenAlong target.filename target.isDirectory file.filename = true ↔
      InSubtree target file := by
  rw [takenAlong_iff, InSubtree, Along]
  rfl

theorem homeOf_isSome_iff (file : FileMetadata) (ns : NameServer) :
    (homeOf file ns).isSome = true ↔ HomeConnected ns file := by
  unfold homeOf serverAt HomeConnected
  simp only [List.find?_isSome, Bool.and_eq_true, decide_eq_true_eq,
    and_assoc]

/-- A plan shows that the target may be deleted. -/
theorem PlannedDeletes.deletable
    {ns : NameServer}
    {username targetPath : CString}
    {target : FileMetadata}
    {plan : List DeletePlanEntry}
    (planned : PlannedDeletes ns username targetPath target plan) :
    Deletable ns username targetPath target := by
  refine ⟨planned.present, planned.named, fun file present inside => ?_⟩
  rw [← takenAlong_iff_inSubtree, planned.named] at inside
  obtain ⟨entry, _, isPlanned⟩ :=
    exists_of_forall₂_left planned.entries
      (List.mem_filter.mpr ⟨present, inside⟩)
  refine ⟨isPlanned.owned, fun isFile => ?_⟩
  obtain ⟨ss, isHome, _⟩ := isPlanned.home isFile
  rw [← homeOf_isSome_iff, isHome]
  rfl

section Planning

variable
  {World : Type}
  {username : CString}

/-- Entries of the user that can be reached can be planned for. -/
theorem planDeleteEntries_returns
    {files : List FileMetadata}
    {state : NsState World}
    (deletable :
      ∀ file ∈ files,
        strncmpEq file.owner username maxUsernameLength = true ∧
          (file.isDirectory = false → HomeConnected state.ns file)) :
    ∃ plan,
      planDeleteEntries username files state = .ok plan state := by
  induction files with
  | nil =>
      exact ⟨[], rfl⟩
  | cons file rest inductionHypothesis =>
      obtain ⟨owned, connected⟩ := deletable file List.mem_cons_self
      obtain ⟨later, planned⟩ :=
        inductionHypothesis fun other member =>
          deletable other (List.mem_cons_of_mem file member)
      have entry :
          ∃ entry, planDeleteEntry username file state = .ok entry state := by
        unfold planDeleteEntry
        rw [nsEnsure, if_pos owned]
        cases isFolder : file.isDirectory with
        | true => exact ⟨_, rfl⟩
        | false =>
            have home := (homeOf_isSome_iff _ _).mpr (connected isFolder)
            obtain ⟨ss, isHome⟩ := Option.isSome_iff_exists.mp home
            refine
              ⟨⟨file.filename, false, some ss.address, max 0 file.size⟩, ?_⟩
            simp [readNs, isHome]
      obtain ⟨first, isFirst⟩ := entry
      refine ⟨first :: later, ?_⟩
      unfold planDeleteEntries
      simp only [bind_apply, isFirst, planned, pure_apply]

/-- What the user may delete can be planned for. -/
theorem planDelete_returns
    {start : NsState World}
    (coherent : Coherent start.ns)
    {targetPath : CString}
    {target : FileMetadata}
    (deletable : Deletable start.ns username targetPath target) :
    ∃ plan looked,
      planDelete username targetPath start = .ok plan looked ∧
        Looked start looked ∧
          PlannedDeletes start.ns username targetPath target plan := by
  obtain ⟨present, named, whole⟩ := deletable
  have sound := @finds_planDelete World start username targetPath
  have ends :
      ∃ plan looked,
        planDelete username targetPath start = .ok plan looked := by
    obtain ⟨index, looked, known, outcome⟩ :=
      lookupMetadata_of_mem coherent present
    rw [named] at outcome
    have owned := (whole target present (Or.inl rfl)).1
    have servers : looked.ns.storageServers = start.ns.storageServers :=
      known.onlyCache.storageServers
    generalize takenEq :
      (looked.ns.files.filter fun file =>
        takenAlong targetPath target.isDirectory file.filename) = taken
    rw [known.onlyCache.files] at takenEq
    obtain ⟨plan, planned⟩ :=
      @planDeleteEntries_returns World username taken looked fun file member => by
        rw [← takenEq] at member
        obtain ⟨isFile, along⟩ := List.mem_filter.mp member
        rw [← named, takenAlong_iff_inSubtree] at along
        obtain ⟨owns, connected⟩ := whole file isFile along
        refine ⟨owns, fun notFolder => ?_⟩
        rw [HomeConnected, servers]
        exact connected notFolder
    have nonempty : plan ≠ [] := by
      have listed :=
        @finds_planDeleteEntries World start username taken looked known
      rw [planned] at listed
      obtain ⟨entry, member, _⟩ :=
        exists_of_forall₂_left listed.1
          (takenEq ▸ List.mem_filter.mpr
            ⟨present, by
              rw [← named]
              exact (takenAlong_iff_inSubtree _ _).mpr (Or.inl rfl)⟩)
      exact List.ne_nil_of_mem member
    rw [← known.onlyCache.files] at takenEq
    refine ⟨plan, looked, ?_⟩
    unfold planDelete
    simp only [bind_apply, outcome, nsEnsure, owned, ↓reduceIte, pure_apply,
      readNs, get_apply, takenEq, planned, ne_eq, nonempty,
      not_false_eq_true, decide_true]
  obtain ⟨plan, looked, planned⟩ := ends
  have known := sound start (Looked.refl coherent)
  rw [planned] at known
  obtain ⟨⟨other, isPlan⟩, isLooked⟩ := known
  obtain rfl : other = target :=
    eq_of_filename coherent.names_nodup isPlan.present present
      (isPlan.named.trans named.symm)
  exact ⟨plan, looked, planned, isLooked, isPlan⟩

/-- Storage servers that accept delete whatever is planned. -/
theorem deleteOnStorage_returns
    {backend : Backend World}
    (accepts : AcceptsDeletes backend)
    (plan : List DeletePlanEntry)
    (state : NsState World) :
    ∃ world,
      deleteOnStorage backend plan state =
        .ok () { state with world := world } := by
  induction plan generalizing state with
  | nil =>
      exact ⟨state.world, rfl⟩
  | cons entry rest inductionHypothesis =>
      unfold deleteOnStorage
      cases entry.ss with
      | none => exact inductionHypothesis state
      | some address =>
          obtain ⟨arguments, accepted⟩ :=
            accepts address entry.path state.world
          have deletes :
              deleteFailure (.message (str "OK_DELETE" :: arguments)) =
                none := by
            simp only [deleteFailure, answerFailure]
            rw [if_neg (show str "OK_DELETE" ≠ str "ERR" by decide),
              if_pos trivial]
            rfl
          simp only [bind_apply, sendAndWait, modifyGet_apply, accepted,
            deletes]
          obtain ⟨world, later⟩ :=
            inductionHypothesis
              { state with
                world :=
                  (backend address [str "DELETE_FILE", entry.path]
                    state.world).2 }
          exact ⟨world, later⟩

end Planning

/-! ## Removing the planned entries -/

section Removing

variable {ns : NameServer}

/-- The requests after the removal of an entry that is there. -/
theorem accessRequests_applyDeleteEntry
    (coherent : Coherent ns)
    {entry : DeletePlanEntry}
    (present : entry.path ∈ ns.files.map FileMetadata.filename) :
    (applyDeleteEntry ns entry).accessRequests =
      ns.accessRequests.map (cancelledFor [entry.path]) := by
  obtain ⟨file, isFile, named⟩ := List.mem_map.mp present
  obtain ⟨index, held⟩ := List.getElem?_of_mem isFile
  have scanned : plainScan ns.files entry.path = some index :=
    (plainScan_eq_some_iff coherent.names_nodup).mpr ⟨file, held, named⟩
  have nonempty : ns.files ≠ [] := List.ne_nil_of_mem isFile
  obtain ⟨last, isLast⟩ :=
    Option.ne_none_iff_exists'.mp
      (mt List.getLast?_eq_none_iff.mp nonempty)
  unfold applyDeleteEntry
  rw [coherent.removeFileMetadataLocked_eq, scanned, isLast]
  simp only
  have same : cancelledFor [entry.path] = fun req =>
      if req.isPending && decide (req.filename = entry.path) then
        { req with isPending := false }
      else
        req := by
    funext req
    simp [cancelledFor]
  rw [same]
  cases entry.ss with
  | none => rfl
  | some address => rfl

theorem cancelledFor_cancelledFor
    (name : CString)
    (names : List CString)
    (req : AccessRequest) :
    cancelledFor names (cancelledFor [name] req) =
      cancelledFor (name :: names) req := by
  unfold cancelledFor
  cases pending : req.isPending with
  | false => simp [pending]
  | true =>
      by_cases isName : req.filename = name
      · simp [isName]
      · simp [pending, isName]

/-- The requests after the removal of several entries that are there. -/
theorem accessRequests_foldl_applyDeleteEntry
    (registry : Registry ns)
    {plan : List DeletePlanEntry}
    (apart : (plan.map DeletePlanEntry.path).Nodup)
    (present :
      ∀ entry ∈ plan, entry.path ∈ ns.files.map FileMetadata.filename) :
    (plan.foldl applyDeleteEntry ns).accessRequests =
      ns.accessRequests.map
        (cancelledFor (plan.map DeletePlanEntry.path)) := by
  induction plan generalizing ns with
  | nil =>
      have same : cancelledFor [] = id := by
        funext req
        simp [cancelledFor]
      simp [same]
  | cons entry rest inductionHypothesis =>
      obtain ⟨stepRegistry, stepMembers⟩ := registry.applyDeleteEntry entry
      rw [List.map_cons, List.nodup_cons] at apart
      have stillThere :
          ∀ other ∈ rest,
            other.path ∈
              (applyDeleteEntry ns entry).files.map
                FileMetadata.filename := by
        intro other member
        obtain ⟨file, isFile, named⟩ :=
          List.mem_map.mp (present other (List.mem_cons_of_mem entry member))
        refine List.mem_map.mpr
          ⟨file, (stepMembers file).mpr ⟨isFile, fun same => ?_⟩, named⟩
        rw [named] at same
        exact apart.1 (same ▸ List.mem_map_of_mem member)
      rw [List.foldl_cons, inductionHypothesis stepRegistry apart.2 stillThere,
        accessRequests_applyDeleteEntry registry.coherent
          (present entry List.mem_cons_self),
        List.map_map, List.map_cons]
      refine List.map_congr_left fun req _ => ?_
      exact cancelledFor_cancelledFor entry.path _ req

/-- The names in a plan are those of the subtree. -/
theorem PlannedDeletes.mem_paths_iff
    {username targetPath : CString}
    {target : FileMetadata}
    {plan : List DeletePlanEntry}
    (planned : PlannedDeletes ns username targetPath target plan)
    (name : CString) :
    name ∈ plan.map DeletePlanEntry.path ↔
      ∃ file ∈ ns.files, InSubtree target file ∧ file.filename = name := by
  rw [planned.paths, List.mem_map]
  simp only [List.mem_filter, ← planned.named, takenAlong_iff_inSubtree,
    and_assoc]

theorem mem_removalOrder_iff
    (plan : List DeletePlanEntry)
    (entry : DeletePlanEntry) :
    entry ∈ removalOrder plan ↔ entry ∈ plan := by
  rw [removalOrder, List.mem_insertionSort, List.mem_reverse]

/-- Carrying out a plan takes out the subtree of its target. -/
theorem PlannedDeletes.subtreeDeleted
    {before : NameServer}
    {username targetPath : CString}
    {target : FileMetadata}
    {plan : List DeletePlanEntry}
    (planned : PlannedDeletes before username targetPath target plan)
    (registry : Registry ns)
    (sameFiles : ns.files = before.files)
    (sameRequests : ns.accessRequests = before.accessRequests) :
    SubtreeDeleted before (applyDelete plan ns) target := by
  obtain ⟨finalRegistry, members⟩ := registry.applyDelete plan
  have namesNodup : (before.files.map FileMetadata.filename).Nodup :=
    sameFiles ▸ registry.coherent.names_nodup
  have spared :
      ∀ file ∈ before.files,
        (∀ entry ∈ plan, file.filename ≠ entry.path) ↔
          ¬InSubtree target file := by
    intro file present
    have listed := planned.mem_paths_iff file.filename
    have inside :
        (∃ other ∈ before.files,
            InSubtree target other ∧ other.filename = file.filename) ↔
          InSubtree target file := by
      refine ⟨?_, fun isInside => ⟨file, present, isInside, rfl⟩⟩
      rintro ⟨other, otherPresent, isInside, same⟩
      rwa [eq_of_filename namesNodup otherPresent present same] at isInside
    rw [← inside, ← listed, List.mem_map, not_exists]
    simp only [not_and, ne_eq, eq_comm]
  have remaining :
      ∀ file,
        file ∈ (applyDelete plan ns).files ↔
          file ∈ before.files ∧ ¬InSubtree target file := by
    intro file
    rw [members, sameFiles]
    exact and_congr_right (spared file)
  have agrees := finalRegistry.coherent.lookupAgrees
  refine ⟨remaining, agrees.names_unique, ?_, ?_, ?_⟩
  · intro file present outside
    obtain ⟨index, held⟩ :=
      List.getElem?_of_mem ((remaining file).mpr ⟨present, outside⟩)
    refine ⟨index, (agrees.finds _ _).mpr ⟨?_, ?_⟩, held⟩
    · exact (List.getElem?_eq_some_iff.mp held).1
    · rw [held]
      rfl
  · intro file present inside
    rw [agrees.finds_nothing]
    rintro ⟨index, _, named⟩
    obtain ⟨other, held, same⟩ := Option.map_eq_some_iff.mp named
    have left := (remaining other).mp (List.mem_of_getElem? held)
    rw [eq_of_filename namesNodup left.1 present same] at left
    exact left.2 inside
  · have order :=
      fun name => planned.mem_paths_iff name
    refine ⟨(removalOrder plan).map DeletePlanEntry.path, fun name => ?_, ?_⟩
    · rw [← order, List.mem_map, List.mem_map]
      simp only [mem_removalOrder_iff]
    · rw [← sameRequests]
      refine accessRequests_foldl_applyDeleteEntry registry ?_ ?_
      · have permuted : (removalOrder plan).Perm plan :=
          (List.perm_insertionSort _ _).trans (List.reverse_perm plan)
        rw [(permuted.map DeletePlanEntry.path).nodup_iff,
          planned.paths]
        exact (List.filter_sublist.map FileMetadata.filename).nodup namesNodup
      · intro entry member
        rw [mem_removalOrder_iff] at member
        obtain ⟨file, present, _, named⟩ :=
          (order entry.path).mp (List.mem_map_of_mem member)
        rw [sameFiles, ← named]
        exact List.mem_map_of_mem present

end Removing

section Deleting

variable
  {World : Type}
  (backend : Backend World)
  {start : NsState World}
  {username : CString}

/-- A deletion that may not be made is refused before anything is asked. -/
theorem handleDelete_not_allowed
    (coherent : Coherent start.ns)
    {type targetPath : CString}
    {rest : List CString}
    (notAllowed :
      ¬(nsValidateLogicalPath targetPath = true ∧
        ∃ target, Deletable start.ns username targetPath target)) :
    ∃ refusal looked,
      handleDelete backend username (type :: targetPath :: rest) start =
          .error refusal looked ∧
        Looked start looked := by
  have untouched := Looked.refl coherent
  unfold handleDelete
  by_cases valid : nsValidateLogicalPath targetPath = true
  · by_cases identified : username = []
    · refine
        ⟨⟨errInternalError, str "Client identity unknown."⟩, start, ?_,
          untouched⟩
      simp only [nsEnsure, valid, identified, ne_eq, not_true_eq_false,
        decide_false, Bool.false_eq_true, ↓reduceIte, bind_apply, pure_apply,
        nsRefuse, throw_apply]
    · have finds :=
        @finds_planDelete World start username targetPath start untouched
      cases planned : planDelete username targetPath start with
      | ok plan looked =>
          rw [planned] at finds
          obtain ⟨⟨target, isPlan⟩, _⟩ := finds
          exact absurd ⟨valid, target, isPlan.deletable⟩ notAllowed
      | error refusal looked =>
          rw [planned] at finds
          refine ⟨refusal, looked, ?_, finds⟩
          simp only [nsEnsure, valid, identified, ne_eq, not_false_eq_true,
            decide_true, ↓reduceIte, bind_apply, pure_apply, planned]
  · refine
      ⟨⟨errInvalidRequest, str "Invalid path requested for DELETE."⟩, start,
        ?_, untouched⟩
    simp only [nsEnsure, valid, Bool.false_eq_true, ↓reduceIte, bind_apply,
      nsRefuse, throw_apply]

/-- A deletion that may be made is made, if the storage servers accept. -/
theorem handleDelete_allowed
    (accepts : AcceptsDeletes backend)
    (registry : Registry start.ns)
    (identified : username ≠ [])
    {type targetPath : CString}
    {rest : List CString}
    {target : FileMetadata}
    (valid : nsValidateLogicalPath targetPath = true)
    (deletable : Deletable start.ns username targetPath target) :
    ∃ reply after,
      handleDelete backend username (type :: targetPath :: rest) start =
          .ok reply after ∧
        SubtreeDeleted start.ns after.ns target := by
  obtain ⟨plan, looked, planned, known, isPlan⟩ :=
    planDelete_returns registry.coherent deletable
  obtain ⟨world, deleted⟩ := deleteOnStorage_returns accepts plan looked
  have only := known.onlyCache
  have sameRequests :
      looked.ns.accessRequests = start.ns.accessRequests := by
    unfold OnlyCacheChanged at only
    rw [only]
  have gone :=
    isPlan.subtreeDeleted (registry.looked known) only.files sameRequests
  have runs :
      ∃ reply,
        handleDelete backend username (type :: targetPath :: rest) start =
          .ok reply { looked with ns := applyDelete plan looked.ns, world := world } := by
    unfold handleDelete
    simp only [nsEnsure, valid, identified, ne_eq, not_false_eq_true,
      decide_true, ↓reduceIte, bind_apply, pure_apply, planned, deleted,
      changeNs, modify_apply]
    split
    · exact ⟨_, rfl⟩
    · exact ⟨_, rfl⟩
  obtain ⟨reply, runs⟩ := runs
  exact ⟨reply, _, runs, gone⟩

end Deleting

/--
In every coherent registry `DELETE` succeeds exactly on a valid path whose
whole subtree is the user's and can be reached; then it takes out that subtree
and nothing else, and otherwise it only looks.
-/
theorem delete_takesOutSubtree
    {World : Type}
    (backend : Backend World)
    {start : NsState World}
    (registry : Registry start.ns)
    {username : CString}
    (identified : username ≠ [])
    (type targetPath : CString)
    (rest : List CString) :
    let result :=
      handleDelete backend username (type :: targetPath :: rest) start
    let allowed :=
      nsValidateLogicalPath targetPath = true ∧
        ∃ target, Deletable start.ns username targetPath target
    (AcceptsDeletes backend →
      (Succeeds result ↔ allowed) ∧
        ∀ target, Deletable start.ns username targetPath target →
          Succeeds result →
            SubtreeDeleted start.ns (finalState result).ns target) ∧
      (¬allowed →
        ¬Succeeds result ∧ Looked start (finalState result)) := by
  intro result allowed
  have refused :
      ¬allowed → ¬Succeeds result ∧ Looked start (finalState result) := by
    intro notAllowed
    obtain ⟨refusal, looked, ended, known⟩ :=
      @handleDelete_not_allowed World backend start username
        registry.coherent type targetPath rest notAllowed
    rw [show result = _ from ended]
    exact ⟨nofun, known⟩
  have needsAllowed : Succeeds result → allowed :=
    fun succeeds => by_contra fun notAllowed =>
      (refused notAllowed).1 succeeds
  refine ⟨fun accepts => ?_, refused⟩
  have made :
      nsValidateLogicalPath targetPath = true →
        ∀ target, Deletable start.ns username targetPath target →
          ∃ reply after,
            result = .ok reply after ∧
              SubtreeDeleted start.ns after.ns target :=
    fun valid _ deletable =>
      handleDelete_allowed backend accepts registry identified valid deletable
  constructor
  · constructor
    · exact needsAllowed
    · rintro ⟨valid, target, deletable⟩
      obtain ⟨reply, after, ended, _⟩ := made valid target deletable
      exact ⟨reply, after, ended⟩
  · intro target deletable succeeds
    obtain ⟨reply, after, ended, gone⟩ :=
      made (needsAllowed succeeds).1 target deletable
    rw [ended]
    exact gone

/-! ## A folder and a file whose name begins alike -/

/-- A folder with a file, a file beside it, and a request for each file. -/
def foldersAndFiles : NameServer :=
  (runFrom (nsStep acceptingStorage) ⟨nsInit, ()⟩
    [.servers [someStorageServer],
      .command 1 (str "ada") (.createFolder [str "CREATEFOLDER", str "d"]),
      .command 2 (str "ada") (.create [str "CREATE", str "d/a"]),
      .command 3 (str "ada") (.create [str "CREATE", str "db"]),
      .command 4 (str "bob")
        (.requestAccess [str "REQUESTACCESS", str "d/a", str "R"]),
      .command 5 (str "bob")
        (.requestAccess [str "REQUESTACCESS", str "db", str "R"])]).ns

theorem acceptsDeletes_acceptingStorage :
    AcceptsDeletes acceptingStorage := by
  intro address path world
  refine ⟨[], ?_⟩
  simp only [acceptingStorage]
  rw [if_neg (show str "DELETE_FILE" ≠ str "CREATE_FILE" by decide),
    if_pos trivial]

theorem delete_takesOutSubtree_folder :
    let result :=
      handleDelete acceptingStorage (str "ada") [str "DELETE", str "d"]
        ⟨foldersAndFiles, ()⟩
    ((finalState result).ns.files.map FileMetadata.filename = [str "db"] ∧
      (finalState result).ns.accessRequests.map AccessRequest.isPending =
        [false, true]) ∧
      (Succeeds result ↔
        nsValidateLogicalPath (str "d") = true ∧
          ∃ target,
            Deletable foldersAndFiles (str "ada") (str "d") target) :=
  ⟨by decide +kernel,
    ((delete_takesOutSubtree acceptingStorage
      (registry_reachable acceptingStorage () _) (by decide) (str "DELETE")
      (str "d") []).1 acceptsDeletes_acceptingStorage).1⟩

end DistributedDocs
