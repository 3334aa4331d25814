import DistributedDocs.NamespaceTree

namespace DistributedDocs

/-!
# The tests for what is in a folder

`MOVE`, `DELETE`, `VIEWFOLDER` and `ns_is_descendant_path` compare names with
a folder character by character, each in its own way.  On valid paths they all
speak of one tree, in which `ns_split_parent_child` finds the parent.
-/

/-! ## `VIEWFOLDER` -/

/-- Whether `VIEWFOLDER` lists a name; the root folder is the empty path. -/
def listedInFolder (normalized name : CString) : Bool :=
  if normalized = [] then
    !name.contains (CChar.ofChar '/')
  else
    let remainder := name.drop (normalized.length + 1)
    decide (name ≠ normalized) &&
      (isBelow normalized name &&
        (decide (remainder ≠ []) && !remainder.contains (CChar.ofChar '/')))

/-- `VIEWFOLDER`; one message for each entry, and one to end the listing. -/
def handleViewFolder
    {World : Type}
    (msg : List CString) : NsHandler World (List (List CString)) := do
  match msg with
  | _ :: inputPath :: _ =>
      let some normalized := nsNormalizeDestination inputPath
        | nsRefuse errInvalidRequest "Invalid folder path."
      if normalized ≠ [] then
        ensureFolder normalized "Folder not found."
          "Requested path is not a folder."
      let listed ← readNs fun ns =>
        ns.files.filter fun file => listedInFolder normalized file.filename
      return (listed.map fun file => [str "OK_VIEWFOLDER", file.filename]) ++
        [[str "OK_VIEWFOLDER_END"]]
  | _ =>
      nsRefuse errInvalidRequest "Usage: VIEWFOLDER <path>"

/-! ## The tree -/

/-- One step of `ns_split_parent_child`. -/
def ParentStep (path parent : CString) : Prop :=
  ∃ child, nsSplitParentChild path = some (parent, child)

/-- The parent `ns_split_parent_child` finds. -/
def parentOf (path : CString) : Option CString :=
  (nsSplitParentChild path).map Prod.fst

/-- The entry of a path is a folder. -/
def FolderAt (ns : NameServer) (folder : CString) : Prop :=
  ∃ entry ∈ ns.files, entry.filename = folder ∧ entry.isDirectory = true

/-- What `ns_is_descendant_path` finds below a folder. -/
def descendantsOf (folder : CString) (files : List FileMetadata) :
    List FileMetadata :=
  files.filter fun file =>
    decide (file.filename ≠ folder) && nsIsDescendantPath file.filename folder

/-- The messages of `VIEWFOLDER` for the entries with a parent. -/
def listingOf (parent : CString) (files : List FileMetadata) :
    List (List CString) :=
  ((files.filter fun file => parentOf file.filename = some parent).map
      fun file => [str "OK_VIEWFOLDER", file.filename]) ++
    [[str "OK_VIEWFOLDER_END"]]

/-- The tests for what is in a folder describe one tree. -/
structure FolderTestsAgree
    (files : List FileMetadata)
    (folder : CString) : Prop where
  taken :
    (files.filter fun file =>
        decide (file.filename ≠ folder) &&
          takenAlong folder true file.filename) =
      descendantsOf folder files
  reached :
    ∀ file ∈ files,
      file ∈ descendantsOf folder files ↔
        Relation.TransGen ParentStep file.filename folder
  listed :
    (files.filter fun file => listedInFolder folder file.filename) =
      files.filter fun file => parentOf file.filename = some folder
  listedAtRoot :
    (files.filter fun file => listedInFolder [] file.filename) =
      files.filter fun file => parentOf file.filename = some []

/-- The commands act on the entries of this tree. -/
structure FolderCommandsAgree
    {World : Type}
    (state : NsState World)
    (folder : CString) : Prop where
  moved :
    ∀ username destination plan final,
      planMove username folder destination state = .ok plan final →
        (plan.map MovePlanEntry.oldPath).filter (fun path => path ≠ folder) =
          (descendantsOf folder state.ns.files).map FileMetadata.filename
  deleted :
    ∀ username plan final,
      planDelete username folder state = .ok plan final →
        (plan.map DeletePlanEntry.path).filter (fun path => path ≠ folder) =
          (descendantsOf folder state.ns.files).map FileMetadata.filename
  listed :
    ∀ type rest,
      ∃ looked,
        handleViewFolder (type :: folder :: rest) state =
          .ok (listingOf folder state.ns.files) looked
  listedAtRoot :
    ∀ type root rest,
      root = str "." ∨ root = str "/" →
        handleViewFolder (type :: root :: rest) state =
          .ok (listingOf [] state.ns.files) state

/-- `ns_is_descendant_path` orders the valid paths. -/
structure DescendantsOrdered : Prop where
  refl :
    ∀ path, nsValidateLogicalPath path = true →
      nsIsDescendantPath path path = true
  trans :
    ∀ path folder top,
      nsValidateLogicalPath path = true →
        nsValidateLogicalPath folder = true →
          nsValidateLogicalPath top = true →
            nsIsDescendantPath path folder = true →
              nsIsDescendantPath folder top = true →
                nsIsDescendantPath path top = true
  antisymm :
    ∀ first second,
      nsValidateLogicalPath first = true →
        nsValidateLogicalPath second = true →
          nsIsDescendantPath first second = true →
            nsIsDescendantPath second first = true → first = second

/-! ## Parents -/

theorem parentStep_iff
    {path parent : CString}
    (short : path.length < maxFilenameLength) :
    ParentStep path parent ↔ parentPath pathSeparator path = parent := by
  obtain ⟨child, split⟩ := nsSplitParentChild_eq short
  simp [ParentStep, split]

theorem parentOf_eq_some_iff
    {path parent : CString}
    (short : path.length < maxFilenameLength) :
    parentOf path = some parent ↔
      parentPath pathSeparator path = parent := by
  obtain ⟨child, split⟩ := nsSplitParentChild_eq short
  simp [parentOf, split]

/-- Parents of a short path are those of the tree of paths. -/
theorem transGen_parentStep_iff
    {path folder : CString}
    (short : path.length < maxFilenameLength) :
    Relation.TransGen ParentStep path folder ↔
      Relation.TransGen
        (fun path parent => parentPath pathSeparator path = parent)
        path folder := by
  constructor
  · intro reached
    induction reached using Relation.TransGen.head_induction_on with
    | single isParent =>
        exact .single ((parentStep_iff short).mp isParent)
    | @head path parent isParent _ inductionHypothesis =>
        have step := (parentStep_iff short).mp isParent
        have shorter := @length_parentPath_le _ _ pathSeparator path
        rw [step] at shorter
        exact .head step (inductionHypothesis (shorter.trans_lt short))
  · intro reached
    induction reached using Relation.TransGen.head_induction_on with
    | single isParent =>
        exact .single ((parentStep_iff short).mpr isParent)
    | @head path parent isParent _ inductionHypothesis =>
        have shorter := @length_parentPath_le _ _ pathSeparator path
        rw [isParent] at shorter
        exact .head ((parentStep_iff short).mpr isParent)
          (inductionHypothesis (shorter.trans_lt short))

/-! ## The tests -/

section Tests

variable {folder name : CString}

theorem nsIsDescendantPath_iff
    (named : folder ≠ []) :
    nsIsDescendantPath name folder = true ↔
      Along pathSeparator folder true name := by
  simp only [nsIsDescendantPath, named, decide_false, Bool.false_or,
    Bool.and_eq_true, decide_eq_true_eq]
  constructor
  · rintro ⟨before, after⟩
    have parts := List.take_append_drop folder.length name
    rw [before] at parts
    cases dropped : name.drop folder.length with
    | nil =>
        rw [dropped, List.append_nil] at parts
        exact .inl parts.symm
    | cons c rest =>
        rw [dropped] at after parts
        have isSeparator : c = pathSeparator := of_decide_eq_true after
        rw [isSeparator] at parts
        exact .inr ⟨rfl, rest, parts.symm⟩
  · rintro (rfl | ⟨-, rest, rfl⟩)
    · simp
    · simp [pathSeparator]

theorem takenAlong_iff_along {isFolder : Bool} :
    takenAlong folder isFolder name = true ↔
      Along pathSeparator folder isFolder name :=
  takenAlong_iff

theorem not_starts_of_nsValidateLogicalPath
    (valid : nsValidateLogicalPath name = true)
    (rest : CString) :
    name ≠ pathSeparator :: rest := by
  rintro rfl
  simp [nsValidateLogicalPath, pathSeparator] at valid

theorem not_ends_of_nsValidateLogicalPath
    (valid : nsValidateLogicalPath name = true)
    (front : CString) :
    name ≠ front ++ [pathSeparator] := by
  rintro rfl
  simp [nsValidateLogicalPath, pathSeparator] at valid

/-- What is listed in a folder has the folder for its parent. -/
theorem listedInFolder_iff
    (valid : nsValidateLogicalPath name = true) :
    listedInFolder folder name = true ↔
      parentPath pathSeparator name = folder := by
  unfold listedInFolder
  split
  · next atRoot =>
    subst atRoot
    rw [Bool.not_eq_true', List.contains_eq_mem, decide_eq_false_iff_not]
    constructor
    · exact parentPath_of_not_mem
    · intro top member
      obtain ⟨child, -, split⟩ := @exists_child _ _ pathSeparator _ member
      rw [top] at split
      exact not_starts_of_nsValidateLogicalPath valid child split
  · next named =>
    simp only [isBelow, Bool.and_eq_true, decide_eq_true_eq, Bool.not_eq_true',
      List.contains_eq_mem, decide_eq_false_iff_not]
    constructor
    · rintro ⟨-, ⟨before, after⟩, -, free⟩
      obtain ⟨rest, dropped⟩ := List.head?_eq_some_iff.mp after
      have split : name = folder ++ pathSeparator :: rest := by
        calc name = name.take folder.length ++ name.drop folder.length :=
              (List.take_append_drop _ _).symm
          _ = folder ++ pathSeparator :: rest := by
            rw [before, dropped]
            rfl
      subst split
      rw [List.drop_length_add_append] at free
      exact parentPath_append_cons folder free
    · intro isParent
      obtain ⟨child, free, split⟩ :=
        exists_child (mem_of_parentPath (isParent ▸ named))
      rw [isParent] at split
      subst split
      have nonempty : child ≠ [] := by
        rintro rfl
        exact not_ends_of_nsValidateLogicalPath valid folder rfl
      rw [List.drop_length_add_append]
      exact ⟨by simp, ⟨by simp, by simp [pathSeparator]⟩, nonempty, free⟩

end Tests

/-! ## One tree -/

section Folder

variable
  {files : List FileMetadata}
  {folder : CString}

theorem mem_descendantsOf
    (named : folder ≠ [])
    {file : FileMetadata}
    (present : file ∈ files) :
    file ∈ descendantsOf folder files ↔
      ∃ rest, file.filename = folder ++ pathSeparator :: rest := by
  rw [descendantsOf, List.mem_filter, Bool.and_eq_true, decide_eq_true_eq,
    nsIsDescendantPath_iff named]
  constructor
  · rintro ⟨-, different, same | ⟨-, below⟩⟩
    · exact absurd same different
    · exact below
  · rintro ⟨rest, below⟩
    refine ⟨present, ?_, .inr ⟨rfl, rest, below⟩⟩
    rw [below]
    simp

theorem taken_eq_descendantsOf
    (named : folder ≠ [])
    (files : List FileMetadata) :
    (files.filter fun file =>
        decide (file.filename ≠ folder) &&
          takenAlong folder true file.filename) =
      descendantsOf folder files := by
  refine List.filter_congr fun file _ => ?_
  have same :
      takenAlong folder true file.filename =
        nsIsDescendantPath file.filename folder := by
    rw [Bool.eq_iff_iff, takenAlong_iff_along, nsIsDescendantPath_iff named]
  rw [same]

theorem listed_eq_children
    (validNames :
      ∀ file ∈ files, nsValidateLogicalPath file.filename = true)
    (folder : CString) :
    (files.filter fun file => listedInFolder folder file.filename) =
      files.filter fun file => parentOf file.filename = some folder := by
  refine List.filter_congr fun file present => ?_
  rw [Bool.eq_iff_iff, listedInFolder_iff (validNames file present),
    decide_eq_true_eq, parentOf_eq_some_iff file.filename_short]

theorem folderTestsAgree
    (validNames :
      ∀ file ∈ files, nsValidateLogicalPath file.filename = true)
    (named : folder ≠ []) :
    FolderTestsAgree files folder where
  taken := taken_eq_descendantsOf named files
  reached := by
    intro file present
    rw [mem_descendantsOf named present,
      transGen_parentStep_iff file.filename_short]
    constructor
    · rintro ⟨rest, below⟩
      rw [below]
      exact transGen_of_below folder rest
    · exact below_of_transGen named
  listed := listed_eq_children validNames folder
  listedAtRoot := listed_eq_children validNames []

/-- What a plan takes along, the folder apart, is below the folder. -/
theorem planned_eq_descendantsOf
    (named : folder ≠ [])
    (files : List FileMetadata) :
    (((files.filter fun file => takenAlong folder true file.filename).map
        FileMetadata.filename).filter fun path => path ≠ folder) =
      (descendantsOf folder files).map FileMetadata.filename := by
  rw [List.filter_map, List.filter_filter,
    ← taken_eq_descendantsOf named files]
  rfl

theorem descendantsOrdered : DescendantsOrdered where
  refl := by
    intro path valid
    rw [nsIsDescendantPath_iff (nonempty_of_nsValidateLogicalPath valid)]
    exact .refl path true
  trans := by
    intro path folder top _ validFolder validTop inside outer
    rw [nsIsDescendantPath_iff
      (nonempty_of_nsValidateLogicalPath validFolder)] at inside
    have named := nonempty_of_nsValidateLogicalPath validTop
    rw [nsIsDescendantPath_iff named] at outer ⊢
    exact inside.trans outer
  antisymm := by
    intro first second validFirst validSecond above below
    rw [nsIsDescendantPath_iff
      (nonempty_of_nsValidateLogicalPath validSecond)] at above
    rw [nsIsDescendantPath_iff
      (nonempty_of_nsValidateLogicalPath validFirst)] at below
    exact below.antisymm above

theorem nsNormalizeDestination_of_valid
    (valid : nsValidateLogicalPath folder = true) :
    nsNormalizeDestination folder = some folder := by
  have notRoot : ¬(folder = str "." ∨ folder = str "/") := by
    rintro (rfl | rfl)
    · exact absurd valid (by decide)
    · exact absurd valid (by decide)
  rw [nsNormalizeDestination, if_neg notRoot, if_pos valid,
    safeStrcpy_of_short (length_lt_of_nsValidateLogicalPath valid)]

end Folder

section Commands

variable
  {World : Type}
  {state : NsState World}
  {folder : CString}

/-- The entry of the path is the folder. -/
theorem FolderAt.isDirectory
    (coherent : Coherent state.ns)
    (isFolder : FolderAt state.ns folder)
    {entry : FileMetadata}
    (present : entry ∈ state.ns.files)
    (named : entry.filename = folder) :
    entry.isDirectory = true := by
  obtain ⟨held, heldPresent, heldNamed, isDirectory⟩ := isFolder
  rw [eq_of_filename coherent.names_nodup present heldPresent
    (named.trans heldNamed.symm)]
  exact isDirectory

theorem planMove_takes_descendants
    (coherent : Coherent state.ns)
    (isFolder : FolderAt state.ns folder)
    (named : folder ≠ [])
    {username destination : CString}
    {plan : List MovePlanEntry}
    {final : NsState World}
    (planned :
      planMove username folder destination state = .ok plan final) :
    (plan.map MovePlanEntry.oldPath).filter (fun path => path ≠ folder) =
      (descendantsOf folder state.ns.files).map FileMetadata.filename := by
  have found :=
    @finds_planMove World state username folder destination state
      (Looked.refl coherent)
  rw [planned] at found
  obtain ⟨⟨-, source, baseName, finalRoot, isPlan⟩, -⟩ := found
  rw [isPlan.oldPaths,
    isFolder.isDirectory coherent isPlan.present isPlan.named]
  exact planned_eq_descendantsOf named state.ns.files

theorem planDelete_takes_descendants
    (coherent : Coherent state.ns)
    (isFolder : FolderAt state.ns folder)
    (named : folder ≠ [])
    {username : CString}
    {plan : List DeletePlanEntry}
    {final : NsState World}
    (planned : planDelete username folder state = .ok plan final) :
    (plan.map DeletePlanEntry.path).filter (fun path => path ≠ folder) =
      (descendantsOf folder state.ns.files).map FileMetadata.filename := by
  have found :=
    @finds_planDelete World state username folder state
      (Looked.refl coherent)
  rw [planned] at found
  obtain ⟨⟨target, isPlan⟩, -⟩ := found
  rw [isPlan.paths, isFolder.isDirectory coherent isPlan.present isPlan.named]
  exact planned_eq_descendantsOf named state.ns.files

theorem handleViewFolder_apply
    (coherent : Coherent state.ns)
    (validNames :
      ∀ file ∈ state.ns.files, nsValidateLogicalPath file.filename = true)
    (valid : nsValidateLogicalPath folder = true)
    (isFolder : FolderAt state.ns folder)
    (type : CString)
    (rest : List CString) :
    ∃ looked,
      handleViewFolder (type :: folder :: rest) state =
        .ok (listingOf folder state.ns.files) looked := by
  obtain ⟨entry, present, rfl, isDirectory⟩ := isFolder
  obtain ⟨index, looked, known, found⟩ :=
    lookupMetadata_of_mem coherent present
  have named := nonempty_of_nsValidateLogicalPath valid
  refine ⟨looked, ?_⟩
  simp only [handleViewFolder, nsNormalizeDestination_of_valid valid, ne_eq,
    named, not_false_eq_true, ↓reduceIte, ensureFolder, bind_apply, found,
    nsEnsure, isDirectory, pure_apply, readNs, get_apply,
    known.onlyCache.files, listed_eq_children validNames, listingOf]

theorem handleViewFolder_atRoot
    (validNames :
      ∀ file ∈ state.ns.files, nsValidateLogicalPath file.filename = true)
    (type : CString)
    {root : CString}
    (rest : List CString)
    (isRoot : root = str "." ∨ root = str "/") :
    handleViewFolder (type :: root :: rest) state =
      .ok (listingOf [] state.ns.files) state := by
  simp only [handleViewFolder, nsNormalizeDestination, isRoot, ↓reduceIte,
    ne_eq, not_true_eq_false, bind_apply, pure_apply, readNs, get_apply,
    listed_eq_children validNames, listingOf]

/--
On valid names the tests for what is in a folder describe the tree of
`ns_split_parent_child`.
-/
theorem folderTests_describeOneTree
    (validNames :
      ∀ file ∈ state.ns.files, nsValidateLogicalPath file.filename = true)
    (valid : nsValidateLogicalPath folder = true) :
    FolderTestsAgree state.ns.files folder ∧
      (Coherent state.ns → FolderAt state.ns folder →
        FolderCommandsAgree state folder) ∧
      DescendantsOrdered := by
  have named := nonempty_of_nsValidateLogicalPath valid
  refine ⟨folderTestsAgree validNames named, fun coherent isFolder => ?_,
    descendantsOrdered⟩
  exact
    { moved := fun _ _ _ _ planned =>
        planMove_takes_descendants coherent isFolder named planned
      deleted := fun _ _ _ planned =>
        planDelete_takes_descendants coherent isFolder named planned
      listed := fun type rest =>
        handleViewFolder_apply coherent validNames valid isFolder type rest
      listedAtRoot := fun type _ rest isRoot =>
        handleViewFolder_atRoot validNames type rest isRoot }

end Commands

/-- A folder with a file and a folder in it, and a file of a longer name. -/
def workFolder : NsState Unit :=
  runFrom (nsStep acceptingStorage) ⟨nsInit, ()⟩
    [.servers [someStorageServer],
      .command 1 (str "ada") (.createFolder [str "CREATEFOLDER", str "work"]),
      .command 2 (str "ada") (.create [str "CREATE", str "workshop"]),
      .command 3 (str "ada") (.create [str "CREATE", str "work/plan"]),
      .command 4 (str "ada")
        (.createFolder [str "CREATEFOLDER", str "work/old"]),
      .command 5 (str "ada") (.create [str "CREATE", str "work/old/plan"])]

/-- The tests agree on what is below the folder and what is just in it. -/
theorem folderTests_describeOneTree_workFolder :
    FolderTestsAgree workFolder.ns.files (str "work") ∧
      FolderCommandsAgree workFolder (str "work") ∧
        (descendantsOf (str "work") workFolder.ns.files).map
            FileMetadata.filename =
          [str "work/plan", str "work/old", str "work/old/plan"] ∧
        listingOf (str "work") workFolder.ns.files =
          [[str "OK_VIEWFOLDER", str "work/plan"],
            [str "OK_VIEWFOLDER", str "work/old"],
            [str "OK_VIEWFOLDER_END"]] := by
  have reachable := registry_reachable acceptingStorage ()
  have isFolder : FolderAt workFolder.ns (str "work") := by
    unfold FolderAt
    decide +kernel
  obtain ⟨agree, commands, -⟩ :=
    @folderTests_describeOneTree Unit workFolder (str "work")
      (by decide +kernel) (by decide +kernel)
  exact ⟨agree, commands (reachable _).coherent isFolder, by decide +kernel,
    by decide +kernel⟩

end DistributedDocs
