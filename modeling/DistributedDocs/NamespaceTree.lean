import DistributedDocs.AccessRequests
import DistributedDocs.NameServerMove
import DistributedDocs.PathTree

namespace DistributedDocs

/-!
# The names form a tree

`CREATEFOLDER` and `MOVE` enter a path only below an existing folder, and
`DELETE` and `MOVE` take whole subtrees along.  `CREATE` enters any name it
can store.
-/

/-- `PATH_SEPARATOR` -/
def pathSeparator : CChar :=
  CChar.ofChar '/'

/-- The paths of a table, and which of them are folders. -/
def pathsOf (files : List FileMetadata) : Set (CString × Bool) :=
  {entry | ∃ file ∈ files, (file.filename, file.isDirectory) = entry}

/-- A path has no parent, or its parent is the name of a folder. -/
def ParentHeld (ns : NameServer) (path : CString) : Prop :=
  ∃ parent child,
    nsSplitParentChild path = some (parent, child) ∧
      (parent = [] ∨
        ∃ folder ∈ ns.files,
          folder.filename = parent ∧ folder.isDirectory = true)

/-- Every name is a valid path in an existing folder. -/
def WellFormedTree (ns : NameServer) : Prop :=
  ∀ file ∈ ns.files,
    nsValidateLogicalPath file.filename = true ∧
      ParentHeld ns file.filename

/-- A path that may be entered: the test `CREATEFOLDER` makes. -/
def fitsTree (path : CString) (ns : NameServer) : Bool :=
  nsValidateLogicalPath path &&
    (nsSplitParentChild path).any fun (parent, _) =>
      parent = [] ||
        ns.files.any fun folder =>
          folder.filename = parent && folder.isDirectory

/-- A `CREATE` that passes the checks of the code is of a path that fits. -/
def CreatesInTree
    {World : Type}
    (state : NsState World) : UserStep → Prop
  | .command _ _ (.create (_ :: filename :: _)) =>
      validateFilename filename = true →
        plainScan state.ns.files filename = none →
          fitsTree filename state.ns = true
  | _ => True

/-! ## Trees of names -/

theorem nsSplitParentChild_eq
    {path : CString}
    (short : path.length < maxFilenameLength) :
    ∃ child,
      nsSplitParentChild path =
        some (parentPath pathSeparator path, child) := by
  unfold nsSplitParentChild parentPath pathSeparator
  simp only [List.span_eq_takeWhile_dropWhile]
  split
  · next atTop =>
    rw [atTop]
    exact ⟨_, rfl⟩
  · next slash parent split =>
    have shorter :=
      (List.dropWhile_suffix (l := path.reverse)
        fun c => decide (c ≠ CChar.ofChar '/')).length_le
    rw [split, List.length_cons, List.length_reverse] at shorter
    rw [if_neg (by omega), split]
    exact ⟨_, rfl⟩

theorem parentHeld_iff
    {ns : NameServer}
    {path : CString}
    (short : path.length < maxFilenameLength) :
    ParentHeld ns path ↔
      parentPath pathSeparator path = [] ∨
        (parentPath pathSeparator path, true) ∈ pathsOf ns.files := by
  obtain ⟨child, split⟩ := nsSplitParentChild_eq short
  simp only [ParentHeld, split, Option.some.injEq, Prod.mk.injEq]
  constructor
  · rintro ⟨_, _, ⟨rfl, rfl⟩, top | ⟨folder, member, named, isFolder⟩⟩
    · exact .inl top
    · exact .inr ⟨folder, member, by rw [named, isFolder]⟩
  · rintro (top | ⟨folder, member, isEntry⟩)
    · exact ⟨_, _, ⟨rfl, rfl⟩, .inl top⟩
    · obtain ⟨named, isFolder⟩ := Prod.mk.inj isEntry
      exact ⟨_, _, ⟨rfl, rfl⟩, .inr ⟨folder, member, named, isFolder⟩⟩

/-- The claim about the table in terms of its paths. -/
theorem wellFormedTree_iff (ns : NameServer) :
    WellFormedTree ns ↔
      (∀ entry ∈ pathsOf ns.files,
        nsValidateLogicalPath entry.1 = true) ∧
        PathTree pathSeparator (pathsOf ns.files) := by
  constructor
  · intro wellFormed
    refine ⟨?_, ?_⟩
    · rintro _ ⟨file, member, rfl⟩
      exact (wellFormed file member).1
    · rintro _ ⟨file, member, rfl⟩
      exact (parentHeld_iff file.filename_short).mp (wellFormed file member).2
  · rintro ⟨valid, tree⟩ file member
    have entry :
        (file.filename, file.isDirectory) ∈ pathsOf ns.files :=
      ⟨file, member, rfl⟩
    exact ⟨valid _ entry,
      (parentHeld_iff file.filename_short).mpr (tree _ entry)⟩

theorem WellFormedTree.of_pathsOf
    {before after : NameServer}
    (wellFormed : WellFormedTree before)
    (same : pathsOf after.files = pathsOf before.files) :
    WellFormedTree after := by
  rw [wellFormedTree_iff] at wellFormed ⊢
  rw [same]
  exact wellFormed

theorem fitsTree_iff
    {ns : NameServer}
    {path : CString} :
    fitsTree path ns = true ↔
      nsValidateLogicalPath path = true ∧ ParentHeld ns path := by
  rw [fitsTree, Bool.and_eq_true, and_congr_right_iff]
  intro _
  cases split : nsSplitParentChild path with
  | none =>
      simp [ParentHeld, split]
  | some pair =>
      obtain ⟨parent, child⟩ := pair
      simp only [ParentHeld, split, Option.any_some, Bool.or_eq_true,
        decide_eq_true_eq, List.any_eq_true, Bool.and_eq_true,
        Option.some.injEq, Prod.mk.injEq]
      constructor
      · intro held
        exact ⟨parent, child, ⟨rfl, rfl⟩, held⟩
      · rintro ⟨_, _, ⟨rfl, rfl⟩, held⟩
        exact held

theorem oneKindEach_pathsOf
    {files : List FileMetadata}
    (namesNodup : (files.map FileMetadata.filename).Nodup) :
    OneKindEach (pathsOf files) := by
  rintro path first second ⟨file, member, isFirst⟩ ⟨other, otherMember, isSecond⟩
  obtain ⟨named, rfl⟩ := Prod.mk.inj isFirst
  obtain ⟨otherNamed, rfl⟩ := Prod.mk.inj isSecond
  rw [eq_of_filename namesNodup member otherMember
    (named.trans otherNamed.symm)]

/-- An entry of a path that fits is added. -/
theorem WellFormedTree.append
    {before after : NameServer}
    (wellFormed : WellFormedTree before)
    {file : FileMetadata}
    (fits : fitsTree file.filename before = true)
    (added : after.files = before.files ++ [file]) :
    WellFormedTree after := by
  rw [fitsTree_iff, parentHeld_iff file.filename_short] at fits
  rw [wellFormedTree_iff] at wellFormed ⊢
  have paths :
      pathsOf after.files =
        Insert.insert (file.filename, file.isDirectory)
          (pathsOf before.files) := by
    ext entry
    simp only [pathsOf, added, List.mem_append, List.mem_singleton,
      Set.mem_ofPred_eq, Set.mem_insert_iff]
    constructor
    · rintro ⟨other, old | rfl, rfl⟩
      · exact .inr ⟨other, old, rfl⟩
      · exact .inl rfl
    · rintro (rfl | ⟨other, old, rfl⟩)
      · exact ⟨file, .inr rfl, rfl⟩
      · exact ⟨other, .inl old, rfl⟩
  rw [paths]
  refine ⟨?_, wellFormed.2.insert fits.2⟩
  rintro entry (rfl | old)
  · exact fits.1
  · exact wellFormed.1 entry old

/-! ## What the commands do to the tree -/

section Commands

variable
  {World : Type}
  {backend : Backend World}
  {now : Int}
  {username : CString}
  {start final : NsState World}

/-- `CREATEFOLDER` adds a path that fits, or nothing. -/
theorem triple_handleCreateFolder (msg : List CString) :
    Triple (Looked start) (handleCreateFolder now username msg)
      (fun _ final =>
        ∃ file,
          fitsTree file.filename start.ns = true ∧
            final.ns.files = start.ns.files ++ [file])
      (Looked start) := by
  have leaves :
      ∀ state : NsState World, Looked start state → Looked start state :=
    fun _ => id
  unfold handleCreateFolder
  split
  · next type path rest =>
    refine Finds.ensure.andThen leaves fun _ valid => ?_
    refine Finds.ensure.andThen leaves fun _ _ => ?_
    refine (Finds.read fun state only => by rw [only.files]).andThen leaves
      fun _ _ => ?_
    refine Finds.ensure.andThen leaves fun _ _ => ?_
    refine (Finds.lookup_absent path).andThen leaves fun _ _ => ?_
    refine Finds.ensure.andThen leaves fun _ _ => ?_
    have adds :
        ParentHeld start.ns path →
          ∀ looked, Looked start looked →
            ∃ file,
              fitsTree file.filename start.ns = true ∧
                (looked.onRegistry (registerFile path
                    (newFolder now username path))).ns.files =
                  start.ns.files ++ [file] := by
      intro parentHeld looked known
      have sameName :
          (newFolder now username path).filename = path :=
        safeStrcpy_of_short (length_lt_of_nsValidateLogicalPath valid)
      refine
        ⟨{ newFolder now username path with
            document := looked.ns.nextDocument }, ?_, ?_⟩
      · change fitsTree (newFolder now username path).filename start.ns = true
        rw [sameName]
        exact fitsTree_iff.mpr ⟨valid, parentHeld⟩
      · rw [NsState.onRegistry, files_registerFile, known.onlyCache.files]
    split
    · next parent child isSplit =>
      split
      · refine (finds_ensureFolder _ _ _).andThen leaves
          fun _ isFolder => ?_
        exact fun looked known =>
          adds ⟨parent, child, isSplit, .inr isFolder⟩ looked known
      · next top =>
        exact fun looked known =>
          adds ⟨parent, child, isSplit, .inl (not_not.mp top)⟩ looked known
    · exact Triple.throw leaves
  · exact Triple.throw leaves

theorem Looked.files_eq
    (known : Looked start final) :
    final.ns.files = start.ns.files :=
  known.onlyCache.files

/-- Changing entries without their paths changes no path. -/
theorem pathsOf_changeFile
    (index : Nat)
    {change : FileMetadata → FileMetadata}
    (sameName : ∀ file, (change file).filename = file.filename)
    (sameKind : ∀ file, (change file).isDirectory = file.isDirectory)
    (ns : NameServer) :
    pathsOf (changeFile index change ns).files = pathsOf ns.files := by
  have samePairs :
      (ns.files.modify index change).map
          (fun file => (file.filename, file.isDirectory)) =
        ns.files.map fun file => (file.filename, file.isDirectory) := by
    refine List.ext_getElem? fun place => ?_
    rw [List.getElem?_map, List.getElem?_map, List.getElem?_modify]
    cases ns.files[place]? with
    | none =>
        rfl
    | some file =>
        by_cases here : index = place
        · simp [here, sameName, sameKind]
        · simp [here]
  ext entry
  have mapped :
      ∀ files : List FileMetadata,
        entry ∈ pathsOf files ↔
          entry ∈ files.map fun file => (file.filename, file.isDirectory) := by
    intro files
    simp [pathsOf, eq_comm]
  rw [mapped, mapped, changeFile, samePairs]

theorem isDirectory_fileAddAccess
    (file : FileMetadata)
    (user : CString)
    (grantRead grantWrite : Bool) :
    (fileAddAccess file user grantRead grantWrite).2.isDirectory =
      file.isDirectory := by
  obtain ⟨readers, writers, same⟩ :=
    fileAddAccess_eq file user grantRead grantWrite
  rw [same]

theorem along_iff_goesAlong
    {source : FileMetadata}
    (name : CString) :
    Along pathSeparator source.filename source.isDirectory name ↔
      GoesAlong source name := by
  rw [goesAlong_iff, takenAlong_iff]
  rfl

theorem separator_not_mem_baseNameOf (path : CString) :
    pathSeparator ∉ baseNameOf path := by
  intro member
  rw [baseNameOf, List.mem_reverse] at member
  simpa [pathSeparator] using List.mem_takeWhile_imp member

theorem nsIsDescendantPath_of_along
    {source : FileMetadata}
    {name : CString}
    (along :
      Along pathSeparator source.filename source.isDirectory name) :
    nsIsDescendantPath name source.filename = true := by
  rcases along with rfl | ⟨-, rest, rfl⟩
  · simp [nsIsDescendantPath]
  · simp [nsIsDescendantPath, pathSeparator]

/-- The new root is in no folder, or in one that does not go along. -/
theorem PlannedMoves.placed
    {ns : NameServer}
    (coherent : Coherent ns)
    {srcPath destFolder destination baseName finalRoot : CString}
    {source : FileMetadata}
    {plan : List MovePlanEntry}
    (planned :
      PlannedMoves ns username srcPath destination source baseName finalRoot
        plan)
    (normalized : nsNormalizeDestination destFolder = some destination) :
    parentPath pathSeparator (destinationPath source.filename destFolder) =
        [] ∨
      (parentPath pathSeparator
            (destinationPath source.filename destFolder), true) ∈
          pathsOf ns.files ∧
        ¬Along pathSeparator source.filename source.isDirectory
          (parentPath pathSeparator
            (destinationPath source.filename destFolder)) := by
  have isRoot := planned.finalRoot_eq_destinationPath normalized
  have short : srcPath.length < maxFilenameLength := by
    rw [← planned.named]
    exact source.filename_short
  obtain ⟨parent, isSplit⟩ := planned.baseName_eq
  have isBase := baseName_of_split short isSplit
  have free := separator_not_mem_baseNameOf srcPath
  rw [planned.named, ← isRoot]
  have root_eq := planned.finalRoot_eq
  unfold finalRootPath at root_eq
  split at root_eq
  · have baseShort := (length_baseNameOf_le srcPath).trans_lt short
    left
    rw [← Option.some.inj root_eq, isBase, safeStrcpy_of_short baseShort]
    exact parentPath_of_not_mem free
  · next below =>
    right
    simp only at root_eq
    split at root_eq
    · cases root_eq
    · have regrouped :
          destination ++ str "/" ++ baseName =
            destination ++ pathSeparator :: baseNameOf srcPath := by
        rw [isBase, List.append_assoc]
        rfl
      rw [← Option.some.inj root_eq, regrouped, parentPath_append_cons _ free]
      obtain ⟨folder, held, named, isFolder⟩ := planned.intoFolder below
      refine ⟨⟨folder, held, by rw [named, isFolder]⟩, fun along => ?_⟩
      rw [← planned.named] at along
      have sourceFolder : source.isDirectory = true := by
        rcases along with same | ⟨isDirectory, -⟩
        · have isSource :=
            eq_of_filename coherent.names_nodup held planned.present
              (named.trans same)
          rw [← isSource]
          exact isFolder
        · exact isDirectory
      have outside := planned.notInside sourceFolder below
      rw [← planned.named, nsIsDescendantPath_of_along along] at outside
      cases outside

/-- `MOVE` gives a subtree a new root in a folder that stays. -/
theorem WellFormedTree.moved
    {before after : NameServer}
    (wellFormed : WellFormedTree before)
    (coherent : Coherent before)
    {srcPath destFolder destination baseName finalRoot : CString}
    {source : FileMetadata}
    {plan : List MovePlanEntry}
    (normalized : nsNormalizeDestination destFolder = some destination)
    (planned :
      PlannedMoves before username srcPath destination source baseName
        finalRoot plan)
    (files :
      after.files =
        before.files.map fun file =>
          if GoesAlong source file.filename then
            renamedMetadata now username
              (nameAfterMove source destFolder file.filename) file
          else
            file) :
    WellFormedTree after := by
  rw [wellFormedTree_iff] at wellFormed ⊢
  have oneKind := oneKindEach_pathsOf coherent.names_nodup
  have present :
      (source.filename, source.isDirectory) ∈ pathsOf before.files :=
    ⟨source, planned.present, rfl⟩
  have newNames :
      ∀ file ∈ before.files, GoesAlong source file.filename →
        nsValidateLogicalPath
          (nameAfterMove source destFolder file.filename) = true := by
    intro file held goes
    obtain ⟨entry, listed, isPlanned⟩ := planned.exists_entry held goes
    obtain ⟨-, isNew⟩ := planned.newPath_eq normalized listed
    rw [isPlanned.oldPath] at isNew
    exact isNew ▸ isPlanned.valid
  have paths :
      pathsOf after.files =
        (fun entry : CString × Bool =>
          (nameAfterMove source destFolder entry.1, entry.2)) ''
            pathsOf before.files := by
    have renamed :
        ∀ file ∈ before.files,
          ((if GoesAlong source file.filename then
              renamedMetadata now username
                (nameAfterMove source destFolder file.filename) file
            else file).filename,
            (if GoesAlong source file.filename then
              renamedMetadata now username
                (nameAfterMove source destFolder file.filename) file
            else file).isDirectory) =
          (nameAfterMove source destFolder file.filename,
            file.isDirectory) := by
      intro file held
      by_cases goes : GoesAlong source file.filename
      · have short :=
          length_lt_of_nsValidateLogicalPath (newNames file held goes)
        rw [if_pos goes]
        exact congrArg (·, file.isDirectory) (safeStrcpy_of_short short)
      · rw [if_neg goes, nameAfterMove, if_neg goes]
    rw [files]
    ext entry
    constructor
    · rintro ⟨_, member, rfl⟩
      obtain ⟨file, held, rfl⟩ := List.mem_map.mp member
      exact ⟨_, ⟨file, held, rfl⟩, (renamed file held).symm⟩
    · rintro ⟨_, ⟨file, held, rfl⟩, rfl⟩
      exact ⟨_, List.mem_map_of_mem held, renamed file held⟩
  rw [paths]
  constructor
  · rintro _ ⟨_, ⟨file, held, rfl⟩, rfl⟩
    change
      nsValidateLogicalPath (nameAfterMove source destFolder file.filename) =
        true
    by_cases goes : GoesAlong source file.filename
    · exact newNames file held goes
    · rw [nameAfterMove, if_neg goes]
      exact wellFormed.1 _ ⟨file, held, rfl⟩
  · refine
      wellFormed.2.rebase oneKind present ?_
        (planned.placed coherent normalized) ?_ ?_
    · exact nonempty_of_nsValidateLogicalPath (wellFormed.1 _ present)
    · intro rest along
      rw [nameAfterMove, if_pos ((along_iff_goesAlong _).mp along),
        List.drop_left]
    · intro name stays
      rw [nameAfterMove, if_neg fun goes =>
        stays ((along_iff_goesAlong _).mpr goes)]

/-- `DELETE` takes a whole subtree out. -/
theorem WellFormedTree.deleted
    {before after : NameServer}
    (wellFormed : WellFormedTree before)
    (coherent : Coherent before)
    {targetPath : CString}
    {target : FileMetadata}
    {plan : List DeletePlanEntry}
    (planned : PlannedDeletes before username targetPath target plan)
    (files :
      ∀ file,
        file ∈ after.files ↔
          file ∈ before.files ∧
            ∀ entry ∈ plan, file.filename ≠ entry.path) :
    WellFormedTree after := by
  rw [wellFormedTree_iff] at wellFormed ⊢
  have oneKind := oneKindEach_pathsOf coherent.names_nodup
  have present :
      (target.filename, target.isDirectory) ∈ pathsOf before.files :=
    ⟨target, planned.present, rfl⟩
  have along :
      ∀ name,
        Along pathSeparator target.filename target.isDirectory name ↔
          takenAlong targetPath target.isDirectory name = true := by
    intro name
    rw [takenAlong_iff, Along, planned.named]
    rfl
  have paths :
      pathsOf after.files =
        {entry ∈ pathsOf before.files |
          ¬Along pathSeparator target.filename target.isDirectory entry.1} := by
    ext entry
    constructor
    · rintro ⟨file, member, rfl⟩
      obtain ⟨held, spared⟩ := (files file).mp member
      refine ⟨⟨file, held, rfl⟩, fun taken => ?_⟩
      obtain ⟨planEntry, listed, isPlanned⟩ :=
        exists_of_forall₂_left planned.entries
          (List.mem_filter.mpr ⟨held, (along _).mp taken⟩)
      exact spared planEntry listed isPlanned.path.symm
    · rintro ⟨⟨file, held, rfl⟩, notTaken⟩
      refine ⟨file, (files file).mpr ⟨held, fun planEntry listed named => ?_⟩,
        rfl⟩
      obtain ⟨taken, isTaken, isPlanned⟩ :=
        exists_of_forall₂ planned.entries listed
      apply notTaken
      rw [along, named, isPlanned.path]
      exact (List.mem_filter.mp isTaken).2
  rw [paths]
  exact ⟨fun entry member => wellFormed.1 entry member.1,
    wellFormed.2.remove oneKind present⟩

theorem isDirectory_locatedMetadata
    (operation : CString)
    (file : FileMetadata) :
    (locatedMetadata now username operation file).isDirectory =
      file.isDirectory := by
  unfold locatedMetadata
  split <;> rfl

/-- Every command keeps the tree, if a `CREATE` is of a path that fits. -/
theorem WellFormedTree.effect
    (registry : Registry start.ns)
    (wellFormed : WellFormedTree start.ns)
    {command : NsCommand}
    (effect : CommandEffect backend now username start command final)
    (notFolder : ∀ msg, command ≠ .createFolder msg)
    (keeps : CreatesInTree start (.command now username command)) :
    WellFormedTree final.ns := by
  have granting :
      ∀ (index : Nat) (user : CString) (grantRead grantWrite : Bool)
          (ns : NameServer),
        pathsOf
            (changeFile index
              (fun entry => (fileAddAccess entry user grantRead grantWrite).2)
              ns).files =
          pathsOf ns.files :=
    fun index user grantRead grantWrite ns =>
      pathsOf_changeFile index
        (fun file => filename_fileAddAccess file user grantRead grantWrite)
        (fun file => isDirectory_fileAddAccess file user grantRead grantWrite)
        ns
  have revoking :
      ∀ (index : Nat) (user : CString) (ns : NameServer),
        pathsOf
            (changeFile index (fun entry => (fileRemoveAccess entry user).2)
              ns).files =
          pathsOf ns.files :=
    fun index user ns =>
      pathsOf_changeFile index
        (fun file => filename_fileRemoveAccess file user)
        (fun file =>
          (rfl :
            (fileRemoveAccess file user).2.isDirectory = file.isDirectory))
        ns
  have looks :
      ∀ {looked : NsState World}, Looked start looked →
        pathsOf looked.ns.files = pathsOf start.ns.files :=
    fun known => by rw [known.onlyCache.files]
  cases effect with
  | looked known =>
      exact wellFormed.of_pathsOf (looks known)
  | unplaced known =>
      refine wellFormed.of_pathsOf ?_
      rw [NsState.onRegistry, files_select, known.onlyCache.files]
  | createRefused known valid room fresh selected asked =>
      refine wellFormed.of_pathsOf ?_
      rw [NsState.onRegistry, (onlyAsks_createOnStorage _ _).ns_eq asked]
      rw [files_createRefused now username _ registry known valid fresh]
  | @created _ filename _ target looked answered known valid room fresh
      selected asked =>
      have files := files_registered now username filename target known
      rw [← (onlyAsks_createOnStorage _ _).ns_eq asked] at files
      refine wellFormed.append ?_ files
      change fitsTree (safeStrcpy _ maxFilenameLength) start.ns = true
      rw [safeStrcpy_of_short (length_of_validateFilename valid)]
      exact keeps valid fresh
  | folder known valid room fresh =>
      exact absurd rfl (notFolder _)
  | moveRefused known normalized planned renames =>
      have same :=
        ns_of_staysWithin (sameRegistry_renameOnStorage [] _)
          (congrArg finalState renames)
      rw [finalState_error] at same
      rw [same]
      exact wellFormed.of_pathsOf (looks known)
  | @moved _ _ destFolder _ _ _ _ source plan looked renamed known normalized
      planned renames =>
      have same :=
        ns_of_staysWithin (sameRegistry_renameOnStorage [] _)
          (congrArg finalState renames)
      rw [finalState_ok] at same
      have applied :=
        known.coherent.applyMove now username
          ((planned.of_looked known).renamesApart
            known.coherent.names_nodup)
      have files :
          (renamed.onRegistry (applyMove now username plan)).ns.files =
            start.ns.files.map fun file =>
              if GoesAlong source file.filename then
                renamedMetadata now username
                  (nameAfterMove source destFolder file.filename) file
              else
                file := by
        rw [NsState.onRegistry, same, applied.2, known.onlyCache.files]
        refine List.map_congr_left fun file held => ?_
        exact @PlannedMoves.entries_after Unit now username _ _ _ _ _ _ _
          ⟨start.ns, ⟨fun _ _ => none, none⟩⟩ planned registry.coherent
          normalized file held
      exact wellFormed.moved registry.coherent normalized planned files
  | deleteRefused known planned deletes =>
      have same :=
        ns_of_staysWithin (sameRegistry_deleteOnStorage _)
          (congrArg finalState deletes)
      rw [finalState_error] at same
      rw [same]
      exact wellFormed.of_pathsOf (looks known)
  | deleted known planned deletes =>
      have same :=
        ns_of_staysWithin (sameRegistry_deleteOnStorage _)
          (congrArg finalState deletes)
      rw [finalState_ok] at same
      refine wellFormed.deleted registry.coherent planned fun file => ?_
      rw [NsState.onRegistry, same, ((registry.looked known).applyDelete _).2,
        known.onlyCache.files]
  | copyAnswered known destination home asked =>
      rw [(OnlyAsks.sendAndWait _ _).ns_eq asked]
      exact wellFormed.of_pathsOf (looks known)
  | copied known source destination home asked =>
      refine wellFormed.of_pathsOf ?_
      rw [NsState.onRegistry, (OnlyAsks.sendAndWait _ _).ns_eq asked,
        pathsOf_changeFile _ (filename_accessedMetadata now username)
          fun file =>
            (rfl :
              (accessedMetadata now username file).isDirectory =
                file.isDirectory)]
      exact looks known
  | located known entry =>
      refine wellFormed.of_pathsOf ?_
      rw [NsState.onRegistry, (onlyCacheChanged_fileCacheStore _ _ _).files,
        pathsOf_changeFile _ (filename_locatedMetadata now username _)
          (isDirectory_locatedMetadata _)]
      exact looks known
  | requested known valid parsed entry =>
      have same := looks known
      exact wellFormed.of_pathsOf same
  | approveRefused known request numbered isPending addressed entry asked =>
      refine wellFormed.of_pathsOf ?_
      change pathsOf (changeFile _ _ _).files = _
      rw [revoking, (onlyAsks_approveOnStorage _ _).ns_eq asked]
      change pathsOf (changeFile _ _ _).files = _
      rw [granting]
      exact looks known
  | approved known request numbered isPending addressed entry asked =>
      refine wellFormed.of_pathsOf ?_
      rw [(onlyAsks_approveOnStorage _ _).ns_eq asked]
      change pathsOf (changeFile _ _ _).files = _
      rw [granting]
      exact looks known
  | rejected known =>
      have same := looks known
      exact wellFormed.of_pathsOf same
  | notAdded known valid parsed entry owned other full =>
      refine wellFormed.of_pathsOf ?_
      rw [NsState.onRegistry, granting]
      exact looks known
  | addRefused known valid parsed entry owned other asked =>
      refine wellFormed.of_pathsOf ?_
      rw [NsState.onRegistry, revoking,
        (onlyAsks_accessOnStorage _ _).ns_eq asked, NsState.onRegistry,
        granting]
      exact looks known
  | added known valid parsed entry owned other room asked =>
      refine wellFormed.of_pathsOf ?_
      rw [(onlyAsks_accessOnStorage _ _).ns_eq asked, NsState.onRegistry,
        granting]
      exact looks known
  | removeRefused known valid entry owned listed asked =>
      refine wellFormed.of_pathsOf ?_
      rw [NsState.onRegistry, granting,
        (onlyAsks_accessOnStorage _ _).ns_eq asked, NsState.onRegistry,
        revoking]
      exact looks known
  | removed known valid entry owned listed asked =>
      refine wellFormed.of_pathsOf ?_
      rw [(onlyAsks_accessOnStorage _ _).ns_eq asked, NsState.onRegistry,
        revoking]
      exact looks known

end Commands

/-! ## The tree in every state of a run -/

instance
    {World : Type}
    (state : NsState World)
    (action : UserStep) :
    Decidable (CreatesInTree state action) := by
  unfold CreatesInTree
  split <;> infer_instance

/-- One step keeps the tree. -/
theorem WellFormedTree.userStep
    {World : Type}
    {backend : Backend World}
    {state : NsState World}
    (registry : Registry state.ns)
    (wellFormed : WellFormedTree state.ns)
    (action : UserStep)
    (keeps : CreatesInTree state action) :
    WellFormedTree (DistributedDocs.userStep backend state action).ns := by
  cases action with
  | servers storageServers =>
      exact wellFormed
  | command now username command =>
      by_cases isFolder : ∃ msg, command = .createFolder msg
      · obtain ⟨msg, rfl⟩ := isFolder
        have outcome :=
          @triple_handleCreateFolder _ now username state msg state
            (Looked.refl registry.coherent)
        change
          WellFormedTree
            (finalState (handleCreateFolder now username msg state)).ns
        generalize handleCreateFolder now username msg state = result
          at outcome
        cases result with
        | ok reply final =>
            obtain ⟨file, fits, added⟩ := outcome
            exact wellFormed.append fits added
        | error refusal final =>
            refine wellFormed.of_pathsOf ?_
            rw [finalState_error, outcome.onlyCache.files]
      · exact wellFormed.effect registry
          (effect_of_command backend now username registry.coherent command)
          (fun msg same => isFolder ⟨msg, same⟩) keeps

/--
In a run whose `CREATE` commands are of valid paths in existing folders, every
name is a valid path in an existing folder in every state.
-/
theorem wellFormedTree_of_createsInTree
    {World : Type}
    (backend : Backend World)
    (world : World)
    (actions : List UserStep)
    (keeps :
      GuardedRun (userStep backend) CreatesInTree ⟨nsInit, world⟩ actions) :
    WellFormedTree (runFrom (userStep backend) ⟨nsInit, world⟩ actions).ns := by
  have preserved :
      ∀ (state : NsState World) (action : UserStep),
        Registry state.ns ∧ WellFormedTree state.ns →
          CreatesInTree state action →
            Registry (userStep backend state action).ns ∧
              WellFormedTree (userStep backend state action).ns := by
    intro state action ⟨registry, wellFormed⟩ allowed
    refine ⟨?_, wellFormed.userStep registry action allowed⟩
    cases action with
    | command now username command =>
        exact registry.nsStep (.command now username command)
    | servers storageServers =>
        exact registry.of_same rfl rfl rfl
  have initially : WellFormedTree nsInit := fun _ member => by cases member
  exact (GuardedRun.invariant preserved ⟨registry_nsInit, initially⟩ keeps).2

/-- A file is moved with its folder. -/
def movedFolder : List UserStep :=
  [.servers [someStorageServer],
    .command 1 (str "ada") (.createFolder [str "CREATEFOLDER", str "work"]),
    .command 2 (str "ada") (.create [str "CREATE", str "work/plan"]),
    .command 3 (str "ada") (.createFolder [str "CREATEFOLDER", str "old"]),
    .command 4 (str "ada") (.move [str "MOVE", str "work", str "old"])]

/-- The run meets the condition, and its names are a tree. -/
theorem wellFormedTree_movedFolder :
    WellFormedTree (acceptedRun movedFolder) ∧
      (acceptedRun movedFolder).files.map FileMetadata.filename =
        [str "old/work", str "old/work/plan", str "old"] :=
  ⟨wellFormedTree_of_createsInTree acceptingStorage () movedFolder
    (by decide +kernel), by decide +kernel⟩

/-- `CREATE` takes a name that no other command will take as a path. -/
theorem not_wellFormedTree_emptySegment :
    ¬∀ actions, WellFormedTree (acceptedRun actions) := by
  intro always
  have created :
      ∃ file ∈
          (acceptedRun
            [.servers [someStorageServer],
              .command 1 (str "ada")
                (.create [str "CREATE", str "lost//plan"])]).files,
        nsValidateLogicalPath file.filename = false := by
    decide +kernel
  obtain ⟨file, member, invalid⟩ := created
  rw [(always _ file member).1] at invalid
  cases invalid

end DistributedDocs
