import DistributedDocs.NameServerListings
import DistributedDocs.RegistryTwins

namespace DistributedDocs

/-!
# Nobody sees the index or the cache

Every command, every listing and every message of a storage server finds the
same at name servers with the same records, whatever their indexes and caches
look like.  So over a whole run both reply alike and both ask the storage
servers the same.
-/

section Commands

variable
  {World : Type}
  {start : NsState World}

variable (backend : Backend World)

theorem alike_createTarget (filename : CString) :
    Alike (createTarget filename : NsHandler World _) := by
  unfold createTarget
  refine .bind (.read fun _ _ same => by rw [same.files]) fun _ => ?_
  refine .bind .ensure fun _ => ?_
  refine .bind (.lookup filename) fun _ => ?_
  refine .bind .ensure fun _ => ?_
  refine .bind (.read ?_) fun _ => ?_
  · rintro _ _ ⟨_, _, _, rfl⟩
    rfl
  refine .bind .ensure fun _ => ?_
  refine .bind (.operate (fun _ _ same _ _ => same.select) fun _ registry =>
    registry.select) fun target => ?_
  split
  · exact .pure _
  · exact .refuse _ _

/-- `CREATE` has found that the name is not taken. -/
theorem triple_createTarget (filename : CString) :
    Triple (Looked start) (createTarget filename)
      (fun _ final => plainScan final.ns.files filename = none)
      (fun _ => True) := by
  have leaves : ∀ state, Looked start state → True := fun _ _ => trivial
  unfold createTarget
  refine (Finds.read fun state only => by rw [only.files]).andThen leaves
    fun _ _ => ?_
  refine Finds.ensure.andThen leaves fun _ _ => ?_
  refine (Finds.lookup_absent filename).andThen leaves fun found isFound => ?_
  refine Finds.ensure.andThen leaves fun _ absent => ?_
  refine (Finds.read fun state only => by
    unfold OnlyCacheChanged at only
    rw [only]).andThen leaves fun _ _ => ?_
  refine Finds.ensure.andThen leaves fun _ _ => ?_
  have fresh := isFound (by simpa using absent)
  refine Triple.bind
    (?_ : Triple _ _
      (fun _ final => plainScan final.ns.files filename = none) _)
    fun target => ?_
  · refine Triple.modifyGet fun state known => ?_
    rw [files_select, known.onlyCache.files]
    exact fresh
  · split
    · exact Triple.pure fun _ => id
    · exact Triple.throw fun _ _ => trivial

theorem alike_createOnStorage
    (target : StorageServerInfo)
    (username filename : CString) :
    Alike (createOnStorage backend target username filename) := by
  unfold createOnStorage
  split
  · exact .pure _
  · exact .bind (.sendAndWait backend _ _) fun _ => .pure _

theorem alike_handleCreate
    (now : Int)
    (username : CString)
    (msg : List CString) :
    Alike (handleCreate backend now username msg) := by
  unfold handleCreate
  split
  · next type filename rest =>
    refine .of_start fun start => ?_
    refine .look .ensure Finds.ensure fun _ valid => ?_
    refine .look .ensure Finds.ensure fun _ _ => ?_
    refine Lockstep.bind
      (Lockstep.mono
        ((alike_createTarget filename).along (triple_createTarget filename))
        (fun _ _ => id) (fun _ _ _ => id) fun _ _ => And.left)
      fun target => ?_
    refine Lockstep.bind ?_ fun _ => (?_ : Alike _)
    · refine Lockstep.modify fun first second ⟨twins, fresh⟩ => ?_
      have ⟨same, keeps, twinKeeps⟩ :=
        @Twins.registerFile _ first second twins filename
          (newMetadata now username filename target)
          (safeStrcpy_of_short (length_of_validateFilename valid))
          (nonempty_of_validateFilename valid) fresh
      exact twins.onRegistry same keeps twinKeeps
    · refine Alike.bind (alike_createOnStorage backend target _ _)
        fun outcome => ?_
      split
      · refine .bind (.operate
          (fun _ _ same registry twinRegistry =>
            same.removeFileMetadataLocked registry.coherent
              twinRegistry.coherent filename)
          fun _ registry => registry.removeFileMetadataLocked filename)
          fun _ => ?_
        exact .throw _
      · refine .bind (.changeServer _ _) fun _ => ?_
        exact .pure _
  · exact .refuse _ _

theorem alike_ensureFolder
    (folder : CString)
    (missing notFolder : String) :
    Alike (ensureFolder folder missing notFolder : NsHandler World Unit) := by
  unfold ensureFolder
  refine .bind (.lookup folder) fun found => ?_
  split
  · exact .ensure
  · exact .refuse _ _

theorem alike_handleCreateFolder
    (now : Int)
    (username : CString)
    (msg : List CString) :
    Alike (handleCreateFolder now username msg :
      NsHandler World (List CString)) := by
  unfold handleCreateFolder
  split
  · next type path rest =>
    refine .of_start fun start => ?_
    refine .look .ensure Finds.ensure fun _ valid => ?_
    refine .look .ensure Finds.ensure fun _ _ => ?_
    refine .look (.read fun _ _ same => by rw [same.files])
      (Finds.read fun state only => by rw [only.files]) fun _ _ => ?_
    refine .look .ensure Finds.ensure fun _ _ => ?_
    refine .look (.lookup path) (Finds.lookup_absent path)
      fun found isFound => ?_
    refine .look .ensure Finds.ensure fun _ absent => ?_
    have fresh := isFound (by simpa using absent)
    split
    · refine .optional (alike_ensureFolder _ _ _)
        ((finds_ensureFolder _ _ _).mono fun _ _ => trivial) ?_
      refine .change (fun first second twins known => ?_) (.pure _)
      exact twins.registerFile
        (safeStrcpy_of_short (length_lt_of_nsValidateLogicalPath valid))
        (nonempty_of_nsValidateLogicalPath valid)
        ((known.plainScan_eq path).trans fresh)
    · exact .of_alike (.refuse _ _)
  · exact .refuse _ _

/-! ### Moving -/

theorem alike_planRename
    (file : FileMetadata)
    (newPath : CString) :
    Alike (planRename file newPath : NsHandler World MovePlanEntry) := by
  unfold planRename
  split
  · exact .pure _
  · refine .bind (.read fun _ _ same => same.homeOf file) fun home => ?_
    split
    · split
      · split
        · exact .pure _
        · exact .refuse _ _
      · exact .refuse _ _
    · exact .refuse _ _

theorem alike_planMoveEntry
    (username srcPath finalRoot : CString)
    (file : FileMetadata) :
    Alike (planMoveEntry username srcPath finalRoot file :
      NsHandler World MovePlanEntry) := by
  unfold planMoveEntry
  refine .bind .ensure fun _ => ?_
  split
  · refine .bind .ensure fun _ => ?_
    refine .bind (.lookup _) fun _ => ?_
    refine .bind .ensure fun _ => ?_
    exact alike_planRename file _
  · exact .refuse _ _

theorem alike_planMoveEntries
    (username srcPath finalRoot : CString)
    (files : List FileMetadata) :
    Alike (planMoveEntries username srcPath finalRoot files :
      NsHandler World (List MovePlanEntry)) := by
  induction files with
  | nil =>
      exact .pure _
  | cons file rest inductionHypothesis =>
      unfold planMoveEntries
      refine .bind (alike_planMoveEntry _ _ _ file) fun _ => ?_
      exact .bind inductionHypothesis fun _ => .pure _

theorem alike_planMove (username srcPath destination : CString) :
    Alike (planMove username srcPath destination :
      NsHandler World (List MovePlanEntry)) := by
  unfold planMove
  refine .bind (.lookup srcPath) fun found => ?_
  split
  · refine .bind .ensure fun _ => ?_
    split
    · refine .optional (alike_ensureFolder _ _ _) ?_
      simp only
      split
      · refine .bind .ensure fun _ => ?_
        refine .bind .ensure fun _ => ?_
        refine .bind (.read fun _ _ same => by rw [same.files]) fun _ => ?_
        refine .bind (alike_planMoveEntries _ _ _ _) fun _ => ?_
        exact .bind .ensure fun _ => .pure _
      · exact .refuse _ _
    · exact .optional (alike_ensureFolder _ _ _) (.refuse _ _)
  · exact .refuse _ _

theorem alike_rollbackRenames (plan : List MovePlanEntry) :
    Alike (rollbackRenames backend plan) := by
  induction plan with
  | nil =>
      exact .pure _
  | cons entry rest inductionHypothesis =>
      unfold rollbackRenames
      split
      · exact .bind (.sendAndWait backend _ _) fun _ => inductionHypothesis
      · exact inductionHypothesis

theorem alike_renameOnStorage
    (done plan : List MovePlanEntry) :
    Alike (renameOnStorage backend done plan) := by
  induction plan generalizing done with
  | nil =>
      exact .pure _
  | cons entry rest inductionHypothesis =>
      unfold renameOnStorage
      split
      · exact inductionHypothesis done
      · refine .bind (.sendAndWait backend _ _) fun answer => ?_
        split
        · exact .bind (alike_rollbackRenames backend done) fun _ => .throw _
        · exact inductionHypothesis (entry :: done)

/-- The renames leave the registry as the plan has seen it. -/
theorem triple_renameOnStorage
    (done plan : List MovePlanEntry) :
    Triple (Looked start) (renameOnStorage backend done plan)
      (fun _ final =>
        Coherent final.ns ∧ OnlyCacheChanged start.ns final.ns)
      (fun _ => True) := by
  intro state known
  have same : SameRegistry state _ :=
    @sameRegistry_renameOnStorage _ backend done plan state
  cases ran : renameOnStorage backend done plan state with
  | error refusal final => trivial
  | ok value final =>
      rw [ran, finalState_ok] at same
      unfold SameRegistry at same
      exact ⟨same ▸ known.coherent, same ▸ known.onlyCache⟩

theorem alike_handleMove
    (now : Int)
    (username : CString)
    (msg : List CString) :
    Alike (handleMove backend now username msg) := by
  unfold handleMove
  split
  · refine .of_start fun start => ?_
    refine .look .ensure Finds.ensure fun _ _ => ?_
    refine .look .ensure Finds.ensure fun _ _ => ?_
    split
    · refine .look (alike_planMove _ _ _) (finds_planMove _)
        fun plan isPlanned => ?_
      obtain ⟨_, source, baseName, finalRoot, planned⟩ := isPlanned
      refine Lockstep.bind
        (Lockstep.mono
          ((alike_renameOnStorage backend [] plan).along
            (triple_renameOnStorage backend [] plan))
          (fun _ _ => id) (fun _ _ _ => id) fun _ _ => And.left)
        fun _ => ?_
      refine Lockstep.bind
        (?_ : Lockstep _ _ _ (fun _ => Twins) _) fun _ => Alike.pure _
      refine Lockstep.modify fun first second ⟨twins, coherent, only⟩ => ?_
      -- What was planned still holds of what the renames have left.
      have firstPlanned :=
        @PlannedMoves.of_looked _ _ start ⟨first.ns, start.world⟩ _ _ _ _ _ _
          planned ⟨coherent, only, rfl⟩
      have twinPlanned := twins.records.plannedMoves firstPlanned
      have apart :=
        firstPlanned.renamesApart twins.registry.coherent.names_nodup
      exact twins.onRegistry
        (twins.records.applyMove twins.registry.coherent
          twins.twinRegistry.coherent now username apart)
        (twins.registry.applyMove now username firstPlanned)
        (twins.twinRegistry.applyMove now username twinPlanned)
    · exact .of_alike (.refuse _ _)
  · exact .refuse _ _

/-! ### Deleting -/

theorem alike_planDeleteEntry
    (username : CString)
    (file : FileMetadata) :
    Alike (planDeleteEntry username file :
      NsHandler World DeletePlanEntry) := by
  unfold planDeleteEntry
  refine .bind .ensure fun _ => ?_
  split
  · exact .pure _
  · refine .bind (.read fun _ _ same => same.homeOf file) fun home => ?_
    split
    · exact .pure _
    · exact .refuse _ _

theorem alike_planDeleteEntries
    (username : CString)
    (files : List FileMetadata) :
    Alike (planDeleteEntries username files :
      NsHandler World (List DeletePlanEntry)) := by
  induction files with
  | nil =>
      exact .pure _
  | cons file rest inductionHypothesis =>
      unfold planDeleteEntries
      refine .bind (alike_planDeleteEntry _ file) fun _ => ?_
      exact .bind inductionHypothesis fun _ => .pure _

theorem alike_planDelete (username targetPath : CString) :
    Alike (planDelete username targetPath :
      NsHandler World (List DeletePlanEntry)) := by
  unfold planDelete
  refine .bind (.lookup targetPath) fun found => ?_
  split
  · refine .bind .ensure fun _ => ?_
    refine .bind (.read fun _ _ same => by rw [same.files]) fun _ => ?_
    refine .bind (alike_planDeleteEntries _ _) fun _ => ?_
    exact .bind .ensure fun _ => .pure _
  · exact .refuse _ _

theorem alike_deleteOnStorage (plan : List DeletePlanEntry) :
    Alike (deleteOnStorage backend plan) := by
  induction plan with
  | nil =>
      exact .pure _
  | cons entry rest inductionHypothesis =>
      unfold deleteOnStorage
      split
      · exact inductionHypothesis
      · refine .bind (.sendAndWait backend _ _) fun answer => ?_
        split
        · exact .throw _
        · exact inductionHypothesis

theorem alike_handleDelete
    (username : CString)
    (msg : List CString) :
    Alike (handleDelete backend username msg) := by
  unfold handleDelete
  split
  · refine .bind .ensure fun _ => ?_
    refine .bind .ensure fun _ => ?_
    refine .bind (alike_planDelete _ _) fun plan => ?_
    refine .bind (alike_deleteOnStorage backend plan) fun _ => ?_
    refine .bind (.change
      (fun _ _ same registry twinRegistry =>
        same.applyDelete registry twinRegistry plan)
      fun _ registry => (registry.applyDelete plan).1) fun _ => ?_
    split
    · exact .pure _
    · exact .pure _
  · exact .refuse _ _

/-! ### Copying and locating -/

theorem alike_copyEntries (username srcName destName : CString) :
    Alike (copyEntries username srcName destName : NsHandler World _) := by
  unfold copyEntries
  refine .bind (.lookup srcName) fun srcFile => ?_
  refine .bind (.lookup destName) fun destFile => ?_
  split
  · split
    · refine .bind .ensure fun _ => ?_
      exact .bind .ensure fun _ => .pure _
    · exact .refuse _ _
  · exact .refuse _ _

theorem alike_handleCopy
    (now : Int)
    (username : CString)
    (msg : List CString) :
    Alike (handleCopy backend now username msg) := by
  unfold handleCopy
  split
  · refine .bind .ensure fun _ => ?_
    refine .bind .ensure fun _ => ?_
    refine .bind (alike_copyEntries _ _ _) fun entries => ?_
    obtain ⟨⟨srcIdx, src⟩, dest⟩ := entries
    simp only
    refine .bind (.read fun _ _ same => same.homeOf dest) fun home => ?_
    split
    · refine .bind (.read fun _ _ same => same.homeOf src) fun srcHome => ?_
      split
      · refine .bind (.sendAndWait backend _ _) fun answer => ?_
        split
        · exact .refuse _ _
        · exact .pure _
        · exact .optional
            (.changeFile srcIdx (filename_accessedMetadata now username))
            (.pure _)
      · exact .refuse _ _
    · exact .refuse _ _
  · exact .refuse _ _

theorem alike_locateFile
    (now : Int)
    (username operation filename : CString) :
    Alike (locateFile now username operation filename :
      NsHandler World (List CString)) := by
  unfold locateFile
  refine .of_start fun start => ?_
  refine .look .ensure Finds.ensure fun _ _ => ?_
  refine .look .ensure Finds.ensure fun _ _ => ?_
  refine .look (.lookup filename) (Finds.lookup_entry filename)
    fun found isFound => ?_
  split
  · next index file =>
    split
    · refine .look .ensure Finds.ensure fun _ _ => ?_
      refine .change (fun first second twins known => ?_) (.pure _)
      have scanned : plainScan first.ns.files filename = some index :=
        (known.plainScan_eq filename).trans (isFound index file rfl).1
      have twinScanned : plainScan second.ns.files filename = some index := by
        rw [twins.records.files]
        exact scanned
      exact
        ⟨(twins.records.changeFile index _).fileCacheStore filename index,
          twins.registry.changeFile_cached
            (filename_locatedMetadata now username operation) scanned,
          twins.twinRegistry.changeFile_cached
            (filename_locatedMetadata now username operation) twinScanned⟩
    · exact .of_alike (.refuse _ _)
  · exact .of_alike (.refuse _ _)

theorem alike_handleReqLoc
    (now : Int)
    (username : CString)
    (msg : List CString) :
    Alike (handleReqLoc now username msg :
      NsHandler World (List CString)) := by
  unfold handleReqLoc
  split
  · exact alike_locateFile _ _ _ _
  · exact alike_locateFile _ _ _ _
  · exact .refuse _ _

theorem alike_handleLookup (filename : CString) :
    Alike (handleLookup filename : NsHandler World (List CString)) := by
  unfold handleLookup
  refine .bind (.lookup filename) fun found => ?_
  split
  · exact .pure _
  · exact .refuse _ _

/-! ### Access -/

/-- Only the records of access requests are looked at. -/
theorem SameRecords.accessRequests
    {first second : NameServer}
    (same : SameRecords first second) :
    first.accessRequests = second.accessRequests := by
  obtain ⟨_, _, _, rfl⟩ := same
  rfl

theorem alike_handleRequestAccess
    (username : CString)
    (msg : List CString) :
    Alike (handleRequestAccess username msg :
      NsHandler World (List CString)) := by
  unfold handleRequestAccess
  split
  · refine .bind .ensure fun _ => ?_
    split
    · refine .bind (.lookup _) fun found => ?_
      split
      · refine .bind (.read fun _ _ same => by rw [same.accessRequests])
          fun _ => ?_
        refine .bind .ensure fun _ => ?_
        refine .bind (.change ?_ fun _ registry =>
          registry.of_same rfl rfl rfl) fun _ => .pure _
        rintro _ _ ⟨_, _, _, rfl⟩ _ _
        exact ⟨_, _, _, rfl⟩
      · exact .refuse _ _
    · exact .refuse _ _
  · exact .refuse _ _

theorem alike_approveOnStorage
    (file : FileMetadata)
    (req : AccessRequest) :
    Alike (approveOnStorage backend file req) := by
  unfold approveOnStorage
  refine .bind (.read fun _ _ same => same.homeOf file) fun home => ?_
  split
  · refine .bind (.sendAndWait backend _ _) fun answer => ?_
    split
    · exact .pure _
    · exact .pure _
    · split <;> exact .pure _
    · exact .pure _
  · exact .pure _

theorem alike_handleApproveAccess
    (username : CString)
    (msg : List CString) :
    Alike (handleApproveAccess backend username msg) := by
  unfold handleApproveAccess
  split
  · simp only
    refine .bind (.read fun _ _ same => by rw [same.accessRequests])
      fun found => ?_
    split
    · refine .bind .ensure fun _ => ?_
      refine .bind (.lookup _) fun entry => ?_
      split
      · refine .bind (.changeFile _ fun file =>
          filename_fileAddAccess file _ _ _) fun _ => ?_
        refine .bind (.changeRequest _ _) fun _ => ?_
        refine .bind (alike_approveOnStorage backend _ _) fun outcome => ?_
        split
        · refine .bind (.changeFile _ fun file =>
            filename_fileRemoveAccess file _) fun _ => ?_
          exact .bind (.changeRequest _ _) fun _ => .throw _
        · exact .pure _
      · exact .refuse _ _
    · exact .refuse _ _
  · exact .refuse _ _

theorem alike_handleRejectAccess
    (username : CString)
    (msg : List CString) :
    Alike (handleRejectAccess username msg :
      NsHandler World (List CString)) := by
  unfold handleRejectAccess
  split
  · simp only
    refine .bind (.read fun _ _ same => by rw [same.accessRequests])
      fun found => ?_
    split
    · exact .bind (.changeRequest _ _) fun _ => .pure _
    · exact .refuse _ _
  · exact .refuse _ _

theorem alike_accessOnStorage
    (file : FileMetadata)
    (request : List CString) :
    Alike (accessOnStorage backend file request) := by
  unfold accessOnStorage
  refine .bind (.read fun _ _ same => same.homeOf file) fun home => ?_
  split
  · exact .bind (.sendAndWait backend _ _) fun _ => .pure _
  · exact .pure _

theorem alike_handleAddAccess
    (username : CString)
    (msg : List CString) :
    Alike (handleAddAccess backend username msg) := by
  unfold handleAddAccess
  split
  · refine .bind .ensure fun _ => ?_
    split
    · refine .bind .ensure fun _ => ?_
      refine .bind (.lookup _) fun found => ?_
      split
      · refine .bind .ensure fun _ => ?_
        split
        · exact .pure _
        · simp only
          refine .bind (.changeFile _ fun file =>
            filename_fileAddAccess file _ _ _) fun _ => ?_
          refine .bind .ensure fun _ => ?_
          refine .bind (alike_accessOnStorage backend _ _) fun outcome => ?_
          split
          · exact .bind (.changeFile _ fun file =>
              filename_fileRemoveAccess file _) fun _ => .throw _
          · exact .pure _
      · exact .refuse _ _
    · exact .refuse _ _
  · exact .refuse _ _

theorem alike_handleRemAccess
    (username : CString)
    (msg : List CString) :
    Alike (handleRemAccess backend username msg) := by
  unfold handleRemAccess
  split
  · refine .bind .ensure fun _ => ?_
    refine .bind .ensure fun _ => ?_
    refine .bind (.lookup _) fun found => ?_
    split
    · refine .bind .ensure fun _ => ?_
      simp only
      refine .bind .ensure fun _ => ?_
      refine .bind (.changeFile _ fun file =>
        filename_fileRemoveAccess file _) fun _ => ?_
      refine .bind (alike_accessOnStorage backend _ _) fun outcome => ?_
      split
      · exact .bind (.changeFile _ fun file =>
          filename_fileAddAccess file _ _ _) fun _ => .throw _
      · exact .pure _
    · exact .refuse _ _
  · exact .refuse _ _

/-- No command sees the index or the cache. -/
theorem alike_command
    (now : Int)
    (username : CString)
    (command : NsCommand) :
    Alike (command.handler backend now username) := by
  cases command with
  | create msg => exact alike_handleCreate backend now username msg
  | createFolder msg => exact alike_handleCreateFolder now username msg
  | move msg => exact alike_handleMove backend now username msg
  | delete msg => exact alike_handleDelete backend username msg
  | copy msg => exact alike_handleCopy backend now username msg
  | reqLoc msg => exact alike_handleReqLoc now username msg
  | lookup filename => exact alike_handleLookup filename
  | requestAccess msg => exact alike_handleRequestAccess username msg
  | approveAccess msg => exact alike_handleApproveAccess backend username msg
  | rejectAccess msg => exact alike_handleRejectAccess username msg
  | addAccess msg => exact alike_handleAddAccess backend username msg
  | remAccess msg => exact alike_handleRemAccess backend username msg

/-! ### Listings -/

theorem alike_handleView
    (machine : Machine)
    (username : CString)
    (msg : List CString) :
    Alike (handleView machine username msg :
      NsHandler World (List (List CString))) := by
  unfold handleView
  split
  · refine .bind .ensure fun _ => ?_
    exact .bind (.read fun _ _ same => by rw [same.files]) fun _ => .pure _
  · exact .refuse _ _

theorem alike_handleViewFolder (msg : List CString) :
    Alike (handleViewFolder msg :
      NsHandler World (List (List CString))) := by
  unfold handleViewFolder
  split
  · split
    · refine .optional (alike_ensureFolder _ _ _) ?_
      exact .bind (.read fun _ _ same => by rw [same.files]) fun _ => .pure _
    · exact .refuse _ _
  · exact .refuse _ _

theorem alike_handleInfo
    (machine : Machine)
    (username : CString)
    (msg : List CString) :
    Alike (handleInfo machine username msg :
      NsHandler World (List (List CString))) := by
  unfold handleInfo
  split
  · refine .bind .ensure fun _ => ?_
    refine .bind .ensure fun _ => ?_
    refine .bind (.lookup _) fun found => ?_
    split
    · exact .bind .ensure fun _ => .pure _
    · exact .refuse _ _
  · exact .refuse _ _

theorem alike_execStart
    (now : Int)
    (username filename : CString) :
    Alike (execStart now username filename :
      NsHandler World FileMetadata) := by
  unfold execStart
  refine .bind .ensure fun _ => ?_
  refine .bind .ensure fun _ => ?_
  refine .bind (.lookup _) fun found => ?_
  split
  · refine .bind .ensure fun _ => ?_
    exact .bind
      (.changeFile _ (filename_accessedMetadata now username))
      fun _ => .pure _
  · exact .refuse _ _

theorem alike_execContent (file : FileMetadata) :
    Alike (execContent backend file) := by
  unfold execContent
  refine .bind (.read fun _ _ same => same.homeOf file) fun home => ?_
  split
  · refine .bind (.sendAndWait backend _ _) fun answer => ?_
    split
    · exact .refuse _ _
    · exact .refuse _ _
    · exact .refuse _ _
    · split
      · exact .throw _
      · split
        · exact .bind .ensure fun _ => .pure _
        · exact .refuse _ _
  · exact .refuse _ _

theorem alike_handleExecStream
    (machine : Machine)
    (now : Int)
    (username : CString)
    (msg : List CString) :
    Alike (handleExecStream backend machine now username msg) := by
  unfold handleExecStream
  split
  · refine .bind (alike_execStart now username _) fun file => ?_
    refine .bind (alike_execContent backend file) fun content => ?_
    split
    · exact .pure _
    · exact .refuse _ _
  · exact .refuse _ _

theorem alike_handleListRequests (username : CString) :
    Alike (handleListRequests username :
      NsHandler World (List (List CString))) := by
  unfold handleListRequests
  refine .bind (.read fun _ _ same => ?_) fun _ => .pure _
  unfold requestsFor
  rw [same.accessRequests]

end Commands

/-! ## Messages of storage servers -/

section Messages

variable
  {first second : NameServer}

/-- The file sync ends alike, with the same records. -/
theorem SameRecords.applyHasFile
    (same : SameRecords first second)
    (coherent : Coherent first)
    (twinCoherent : Coherent second)
    (now : Int)
    (ss : StorageServerInfo)
    (msg : List CString) :
    (∃ refusal,
        DistributedDocs.applyHasFile now ss msg first = .error refusal ∧
          DistributedDocs.applyHasFile now ss msg second = .error refusal) ∨
      ∃ after twinAfter,
        DistributedDocs.applyHasFile now ss msg first = .ok after ∧
          DistributedDocs.applyHasFile now ss msg second = .ok twinAfter ∧
            SameRecords after twinAfter := by
  unfold DistributedDocs.applyHasFile
  cases hasFileOf msg with
  | none => exact .inl ⟨_, rfl, rfl⟩
  | some hasFile =>
      simp only [coherent.index_agrees, twinCoherent.index_agrees, same.files]
      split
      · exact .inl ⟨_, rfl, rfl⟩
      · split
        · exact .inl ⟨_, rfl, rfl⟩
        · split
          · exact .inr ⟨_, _, rfl, rfl,
              (same.changeFile _ _).fileCacheStore _ _⟩
          · split
            · exact .inl ⟨_, rfl, rfl⟩
            · exact .inr ⟨_, _, rfl, rfl, same.registerFile _ _⟩

theorem SameRecords.applyWriteComplete
    (same : SameRecords first second)
    (coherent : Coherent first)
    (twinCoherent : Coherent second)
    (now : Int)
    (ss : StorageServerInfo)
    (msg : List CString) :
    SameRecords (DistributedDocs.applyWriteComplete now ss msg first)
      (DistributedDocs.applyWriteComplete now ss msg second) := by
  unfold DistributedDocs.applyWriteComplete
  split
  · simp only [coherent.index_agrees, twinCoherent.index_agrees, same.files]
    split
    · have counted :=
        fun index change filename =>
          (same.changeFile index change).fileCacheStore filename index
      split
      · exact (counted _ _ _).changeServer _ _
      · exact counted _ _ _
    · exact same
  · exact same

end Messages

/-! ## Runs -/

/-- A command that replies with a stream of messages. -/
inductive NsListing where
  | view (msg : List CString)
  | viewFolder (msg : List CString)
  | info (msg : List CString)
  | exec (msg : List CString)
  | listRequests
  deriving DecidableEq

/-- What happens at the name server, listings included. -/
inductive NsEvent (World : Type) where
  | acts (action : NsAction World)
  | lists (now : Int) (username : CString) (listing : NsListing)

/-- What the outside sees of a step. -/
structure NsShown (World : Type) where
  reply : Except Refusal (List (List CString))
  world : World
  saved : CString

/-- What is replied: the value, or the error the program is left with. -/
def repliedBy {World α : Type} :
    EStateM.Result Refusal (NsState World) α → Except Refusal α
  | .ok value _ => .ok value
  | .error refusal _ => .error refusal

section Runs

variable
  {World : Type}
  (backend : Backend World)
  (machine : Machine)

/-- The handler of a listing. -/
def NsListing.handler
    (now : Int)
    (username : CString) :
    NsListing → NsHandler World (List (List CString))
  | .view msg => handleView machine username msg
  | .viewFolder msg => handleViewFolder msg
  | .info msg => handleInfo machine username msg
  | .exec msg => handleExecStream backend machine now username msg
  | .listRequests => handleListRequests username

/-- One step of the name server, listings included. -/
def eventStep (state : NsState World) : NsEvent World → NsState World
  | .acts action => nsStep backend state action
  | .lists now username listing =>
      finalState (listing.handler backend machine now username state)

/-- The reply to what happens; a message that has none is not replied to. -/
def eventReply (state : NsState World) :
    NsEvent World → Except Refusal (List (List CString))
  | .acts (.command now username command) =>
      (repliedBy (command.handler backend now username state)).map fun reply =>
        [reply]
  | .acts (.hasFile now ss msg) =>
      (applyHasFile now ss msg state.ns).map fun _ => []
  | .acts _ => .ok []
  | .lists now username listing =>
      repliedBy (listing.handler backend machine now username state)

/-- The reply, the storage servers after the step, and what would be saved. -/
def eventShown (state : NsState World) (event : NsEvent World) :
    NsShown World where
  reply := eventReply backend machine state event
  world := (eventStep backend machine state event).world
  saved := nsSaveMetadata (eventStep backend machine state event).ns

/-- A program that is alike replies alike and leaves twins. -/
theorem Alike.outcome
    {α : Type}
    {program : NsHandler World α}
    (alike : Alike program)
    {first second : NsState World}
    (twins : Twins first second) :
    repliedBy (program first) = repliedBy (program second) ∧
      Twins (finalState (program first)) (finalState (program second)) := by
  have ends := alike first second twins
  generalize program first = outcome at ends ⊢
  generalize program second = twinOutcome at ends ⊢
  cases ends with
  | returned twins => exact ⟨rfl, twins⟩
  | left twins => exact ⟨rfl, twins⟩

theorem alike_listing
    (now : Int)
    (username : CString)
    (listing : NsListing) :
    Alike (listing.handler backend machine now username) := by
  cases listing with
  | view msg => exact alike_handleView machine username msg
  | viewFolder msg => exact alike_handleViewFolder msg
  | info msg => exact alike_handleInfo machine username msg
  | exec msg => exact alike_handleExecStream backend machine now username msg
  | listRequests => exact alike_handleListRequests username

/-- Twins reply alike to what happens, and it leaves twins. -/
theorem Twins.event
    {first second : NsState World}
    (twins : Twins first second)
    (event : NsEvent World) :
    eventReply backend machine first event =
        eventReply backend machine second event ∧
      Twins (eventStep backend machine first event)
        (eventStep backend machine second event) := by
  cases event with
  | lists now username listing =>
      exact (alike_listing backend machine now username listing).outcome twins
  | acts action =>
      have keeps : Registry (nsStep backend first action).ns :=
        twins.registry.nsStep action
      have twinKeeps : Registry (nsStep backend second action).ns :=
        twins.twinRegistry.nsStep action
      obtain ⟨coherent, twinCoherent⟩ := twins.coherent
      cases action with
      | command now username command =>
          obtain ⟨reply, after⟩ :=
            (alike_command backend now username command).outcome twins
          refine ⟨?_, after⟩
          simp only [eventReply, reply]
      | hasFile now ss msg =>
          rcases twins.records.applyHasFile coherent twinCoherent now ss msg
            with ⟨refusal, failed, twinFailed⟩ |
              ⟨after, twinAfter, applied, twinApplied, same⟩
          · refine ⟨?_, ?_⟩
            · simp only [eventReply, failed, twinFailed]
            · simp only [eventStep, nsStep, failed, twinFailed]
              exact twins
          · refine ⟨?_, ?_, ?_, keeps, twinKeeps⟩
            · simp only [eventReply, applied, twinApplied, Except.map]
            · simp only [eventStep, nsStep, applied, twinApplied]
              exact same
            · simp only [eventStep, nsStep, applied, twinApplied]
              exact twins.world
      | filesDone address =>
          refine ⟨rfl, ?_, twins.world, keeps, twinKeeps⟩
          obtain ⟨_, _, _, records⟩ := twins.records
          simp only [eventStep, nsStep, NsState.onRegistry, records]
          exact ⟨_, _, _, rfl⟩
      | writeComplete now ss msg =>
          exact ⟨rfl,
            twins.records.applyWriteComplete coherent twinCoherent now ss msg,
            twins.world, keeps, twinKeeps⟩
      | servers storageServers =>
          refine ⟨rfl, ?_, twins.world, keeps, twinKeeps⟩
          obtain ⟨_, _, _, records⟩ := twins.records
          simp only [eventStep, nsStep, NsState.onRegistry, records]
          exact ⟨_, _, _, rfl⟩
      | storage world =>
          exact ⟨rfl, twins.records, rfl, keeps, twinKeeps⟩

/-- Twins show the same of what happens. -/
theorem Twins.shown
    {first second : NsState World}
    (twins : Twins first second)
    (event : NsEvent World) :
    eventShown backend machine first event =
      eventShown backend machine second event := by
  obtain ⟨reply, after⟩ := twins.event backend machine event
  have saved :
      nsSaveMetadata (eventStep backend machine first event).ns =
        nsSaveMetadata (eventStep backend machine second event).ns := by
    rw [nsSaveMetadata, nsSaveMetadata, after.records.files]
  simp only [eventShown, reply, after.world, saved]

end Runs

/--
Two coherent name servers with the same records, whatever their indexes and
caches hold, reply the same, ask the storage servers the same and save the same,
whatever happens, and keep the same records.
-/
theorem index_and_cache_unseen
    {World : Type}
    (backend : Backend World)
    (machine : Machine)
    {first second : NsState World}
    (twins : Twins first second)
    (events : List (NsEvent World)) :
    observations (eventStep backend machine) (eventShown backend machine)
          first events =
        observations (eventStep backend machine) (eventShown backend machine)
          second events ∧
      Twins (runFrom (eventStep backend machine) first events)
        (runFrom (eventStep backend machine) second events) := by
  constructor
  · exact observations_eq
      (fun _ _ event known => (known.event backend machine event).2)
      (fun _ _ event known => known.shown backend machine event)
      twins events
  · induction events generalizing first second with
    | nil =>
        exact twins
    | cons event rest inductionHypothesis =>
        exact inductionHypothesis (twins.event backend machine event).2

/-- After a file has been shared it is listed, read and removed. -/
def plannedEvents : List (NsEvent Unit) :=
  [.lists 3 (str "eve") (.view [str "VIEW"]),
    .acts
      (.command 4 (str "eve")
        (.reqLoc [str "REQ_LOC", str "READ", str "plan"])),
    .acts (.command 5 (str "ada") (.delete [str "DELETE", str "plan"])),
    .lists 6 (str "eve") (.info [str "INFO", str "plan"])]

/-- The cache may be emptied in any state the name server can reach. -/
theorem Twins.emptied
    {World : Type}
    (backend : Backend World)
    (world : World)
    (actions : List (NsAction World)) :
    let state := runFrom (nsStep backend) ⟨nsInit, world⟩ actions
    Twins state
      (state.onRegistry fun ns =>
        { ns with
          fileCache := List.replicate fileCacheSize freeCacheEntry
          cacheTick := 0 }) := by
  intro state
  have registry := registry_reachable backend world actions
  refine ⟨⟨_, _, _, rfl⟩, rfl, registry, ?_, registry.named⟩
  exact registry.coherent.withCache
    (LookupCache.sound_of_free fun _ member => by
      rw [List.eq_of_mem_replicate member]
      rfl) 0

theorem empty_cache_unseen :
    let shared := runFrom (nsStep acceptingStorage) ⟨nsInit, ()⟩ sharedFile
    let emptied :=
      shared.onRegistry fun ns =>
        { ns with
          fileCache := List.replicate fileCacheSize freeCacheEntry
          cacheTick := 0 }
    observations (eventStep acceptingStorage idleMachine)
          (eventShown acceptingStorage idleMachine) shared plannedEvents =
        observations (eventStep acceptingStorage idleMachine)
          (eventShown acceptingStorage idleMachine) emptied plannedEvents ∧
      Twins
        (runFrom (eventStep acceptingStorage idleMachine) shared plannedEvents)
        (runFrom (eventStep acceptingStorage idleMachine) emptied
          plannedEvents) :=
  index_and_cache_unseen acceptingStorage idleMachine
    (.emptied acceptingStorage () sharedFile) plannedEvents

end DistributedDocs
