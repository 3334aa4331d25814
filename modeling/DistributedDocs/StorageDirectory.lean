import DistributedDocs.StorageFaults
import DistributedDocs.StorageUndo

namespace DistributedDocs

/-!
# Paths in the flat storage directory

The paths of a record are put together from its physical name, in which every
`/` has been replaced, except for the snapshot of a checkpoint, which is named
after the logical name.
-/

/-- The path is a single component below the directory. -/
def InsideDirectory (storagePath path : CString) : Prop :=
  ∃ component,
    path = storagePath ++ str "/" ++ component ∧ component ≠ [] ∧
      CChar.ofChar '/' ∉ component ∧
        component ≠ str "." ∧ component ≠ str ".."

/-- The paths a server derives for a record; the last one for a checkpoint. -/
def derivedPaths
    (storagePath : CString)
    (rec : FileRecord)
    (now : Int)
    (tag : CString) : List CString :=
  [rec.filepath, rec.metapath, rec.undopath, copyTempPath rec] ++
    (checkpointPath storagePath rec now tag).toList

/-- The name has no folder part, and is not that of a directory. -/
def FlatName (name : CString) : Prop :=
  CChar.ofChar '/' ∉ name ∧ name ≠ str "." ∧ name ≠ str ".."

instance (name : CString) : Decidable (FlatName name) :=
  inferInstanceAs (Decidable (_ ∧ _ ∧ _))

theorem insideDirectory_append_iff (storagePath component : CString) :
    InsideDirectory storagePath (storagePath ++ str "/" ++ component) ↔
      component ≠ [] ∧ CChar.ofChar '/' ∉ component ∧
        component ≠ str "." ∧ component ≠ str ".." := by
  constructor
  · rintro ⟨other, same, nonempty, single, notDot, notDots⟩
    rw [List.append_right_inj] at same
    subst same
    exact ⟨nonempty, single, notDot, notDots⟩
  · intro proper
    exact ⟨component, rfl, proper⟩

/-- A longer component without a separator is neither `.` nor `..`. -/
theorem insideDirectory_of_long
    {storagePath component : CString}
    (single : CChar.ofChar '/' ∉ component)
    (long : 2 < component.length) :
    InsideDirectory storagePath (storagePath ++ str "/" ++ component) := by
  have different : ∀ other : CString, other.length ≤ 2 → component ≠ other := by
    rintro other short rfl
    exact absurd long (Nat.not_lt.mpr short)
  exact (insideDirectory_append_iff storagePath component).mpr
    ⟨different [] (by decide), single, different _ (by decide),
      different _ (by decide)⟩

/-! ## Physical names -/

section Names

variable
  {name : CString}
  (short : name.length < maxFilenameLength)

include short

theorem physicalNameOf_eq_map :
    physicalNameOf name =
      name.map fun c =>
        if c = CChar.ofChar '/' then CChar.ofChar '_' else c := by
  rw [physicalNameOf, flattenLogicalPath, if_neg (Nat.not_le.mpr short)]

theorem slash_not_mem_physicalNameOf :
    CChar.ofChar '/' ∉ physicalNameOf name := by
  rw [physicalNameOf_eq_map short]
  intro member
  obtain ⟨c, _, replaced⟩ := List.mem_map.mp member
  split at replaced
  · exact absurd replaced (by decide)
  · next notSlash => exact notSlash replaced

/-- Only a name without a separator becomes `.` or `..`. -/
theorem physicalNameOf_eq_iff
    {other : CString}
    (plain : CChar.ofChar '_' ∉ other ∧ CChar.ofChar '/' ∉ other) :
    physicalNameOf name = other ↔ name = other := by
  rw [physicalNameOf_eq_map short]
  constructor
  · intro same
    have unchanged :
        ∀ c ∈ name,
          (if c = CChar.ofChar '/' then CChar.ofChar '_' else c) = c := by
      intro c member
      split
      · next isSlash =>
        refine absurd ?_ plain.1
        rw [← same]
        exact List.mem_map.mpr ⟨c, member, if_pos isSlash⟩
      · rfl
    calc name = name.map id := (List.map_id name).symm
      _ = _ := (List.map_congr_left fun c member =>
        (unchanged c member).symm)
      _ = other := same
  · rintro rfl
    refine (List.map_congr_left fun c member => ?_).trans (List.map_id name)
    refine if_neg fun isSlash => plain.2 ?_
    rw [← isSlash]
    exact member

end Names

/-! ## The paths of a record -/

theorem slash_not_mem_ssSanitizeTag (tag : CString) (size : Nat) :
    CChar.ofChar '/' ∉ ssSanitizeTag tag size := by
  intro member
  obtain ⟨c, _, same⟩ := List.mem_map.mp member
  split at same
  · next kept =>
    rw [same] at kept
    exact absurd kept (by decide)
  · split at same
    · exact absurd same (by decide)
    · exact absurd same (by decide)

section Records

variable
  {storagePath : CString}
  {rec : FileRecord}
  (placed : rec.WellPlaced storagePath)
  (valid : validateFilename rec.filename = true)

include placed valid

theorem insideDirectory_filepath_iff :
    InsideDirectory storagePath rec.filepath ↔
      rec.filename ≠ str "." ∧ rec.filename ≠ str ".." := by
  have short := length_of_validateFilename valid
  have nonempty : physicalNameOf rec.filename ≠ [] := by
    rw [ne_eq, physicalNameOf_eq_iff short (by decide)]
    exact nonempty_of_validateFilename valid
  rw [placed.filepath_eq, contentPath, insideDirectory_append_iff]
  simp only [ne_eq, nonempty, not_false_eq_true,
    slash_not_mem_physicalNameOf short, true_and,
    physicalNameOf_eq_iff short
      (show CChar.ofChar '_' ∉ str "." ∧ CChar.ofChar '/' ∉ str "." by decide),
    physicalNameOf_eq_iff short
      (show CChar.ofChar '_' ∉ str ".." ∧ CChar.ofChar '/' ∉ str ".." by
        decide)]

/-- A path beside the content, with a suffix, is always inside. -/
theorem insideDirectory_suffixed
    {suffix : CString}
    (single : CChar.ofChar '/' ∉ suffix)
    (long : 2 < suffix.length) :
    InsideDirectory storagePath (rec.filepath ++ suffix) := by
  have short := length_of_validateFilename valid
  rw [placed.filepath_eq, contentPath, List.append_assoc]
  refine insideDirectory_of_long ?_ ?_
  · rw [List.mem_append, not_or]
    exact ⟨slash_not_mem_physicalNameOf short, single⟩
  · rw [List.length_append]
    exact Nat.lt_of_lt_of_le long (Nat.le_add_left _ _)

omit placed valid in
/-- The snapshot is named after the logical name, whatever the tag. -/
theorem insideDirectory_checkpointPath_iff
    {now : Int}
    {tag path : CString}
    (built : checkpointPath storagePath rec now tag = some path) :
    InsideDirectory storagePath path ↔
      CChar.ofChar '/' ∉ rec.filename := by
  simp only [checkpointPath, buildPath, Option.ite_none_left_eq_some,
    Option.some.injEq] at built
  obtain ⟨_, rfl⟩ := built
  generalize labelEq :
    (if ssSanitizeTag tag maxTagLength = [] then str "checkpoint"
      else ssSanitizeTag tag maxTagLength) = label
  have labelFree : CChar.ofChar '/' ∉ label := by
    rw [← labelEq]
    split
    · decide
    · exact slash_not_mem_ssSanitizeTag _ _
  have stampFree :
      CChar.ofChar '/' ∉
        str ".ckpt_" ++ decimal now ++ str "_" ++ label := by
    simp only [List.mem_append, not_or]
    exact ⟨⟨⟨by decide, not_mem_decimal (by decide) now⟩, by decide⟩,
      labelFree⟩
  have nameShort := rec.filename_short
  rw [maxFilenameLength] at nameShort
  have cut :
      snprintf (maxFilenameLength + maxTagLength + 32)
          (rec.filename ++ str ".ckpt_" ++ decimal now ++ str "_" ++
            label) =
        rec.filename ++
          (str ".ckpt_" ++ decimal now ++ str "_" ++ label).take
            (671 - rec.filename.length) := by
    have fits : rec.filename.length ≤ 671 := by omega
    have size : maxFilenameLength + maxTagLength + 32 - 1 = 671 := by decide
    simp only [List.append_assoc]
    rw [snprintf, size, List.take_append, List.take_of_length_le fits]
  have longEnough :
      2 < (rec.filename ++
        (str ".ckpt_" ++ decimal now ++ str "_" ++ label).take
          (671 - rec.filename.length)).length := by
    have markerLength : (str ".ckpt_").length = 6 := by decide
    simp only [List.length_append, List.length_take, markerLength]
    omega
  have tailFree :
      CChar.ofChar '/' ∉
        (str ".ckpt_" ++ decimal now ++ str "_" ++ label).take
          (671 - rec.filename.length) :=
    fun member => stampFree (List.mem_of_mem_take member)
  rw [cut]
  constructor
  · intro inside isFolder
    obtain ⟨_, single, _⟩ :=
      (insideDirectory_append_iff storagePath _).mp inside
    exact single (List.mem_append_left _ isFolder)
  · intro single
    refine insideDirectory_of_long ?_ longEnough
    rw [List.mem_append, not_or]
    exact ⟨single, tailFree⟩

omit placed valid in
theorem exists_checkpointPath
    (pathShort : storagePath.length ≤ maxTagLength)
    (now : Int)
    (tag : CString) :
    ∃ path, checkpointPath storagePath rec now tag = some path := by
  refine ⟨_, buildPath_of_short pathShort ?_⟩
  rw [snprintf, List.length_take]
  exact Nat.le_trans (Nat.min_le_left _ _) (by decide)

/-- All paths of a record are inside exactly if its name is flat. -/
theorem derivedPaths_insideDirectory_iff
    (pathShort : storagePath.length ≤ maxTagLength)
    (now : Int)
    (tag : CString) :
    (∀ path ∈ derivedPaths storagePath rec now tag,
        InsideDirectory storagePath path) ↔
      FlatName rec.filename := by
  obtain ⟨ckptPath, built⟩ :=
    @exists_checkpointPath storagePath rec pathShort now tag
  have content := insideDirectory_filepath_iff placed valid
  have meta_ : InsideDirectory storagePath rec.metapath := by
    rw [placed.metapath_eq]
    exact insideDirectory_suffixed placed valid (by decide) (by decide)
  have undo : InsideDirectory storagePath rec.undopath := by
    rw [placed.undopath_eq]
    exact insideDirectory_suffixed placed valid (by decide) (by decide)
  have scratch : InsideDirectory storagePath (copyTempPath rec) := by
    rw [placed.copyTempPath_eq pathShort]
    exact insideDirectory_suffixed placed valid (by decide) (by decide)
  have snapshot := insideDirectory_checkpointPath_iff built
  simp only [derivedPaths, built, Option.toList_some, List.mem_append,
    List.mem_cons, List.not_mem_nil, or_false]
  constructor
  · intro inside
    exact ⟨snapshot.mp (inside ckptPath (Or.inr rfl)),
      content.mp (inside rec.filepath (Or.inl (Or.inl rfl)))⟩
  · rintro ⟨single, notDots⟩ path isDerived
    rcases isDerived with (rfl | rfl | rfl | rfl) | rfl
    · exact content.mpr notDots
    · exact meta_
    · exact undo
    · exact scratch
    · exact snapshot.mpr single

end Records

theorem storagePath_run
    (storagePath : {path : CString // path.length ≤ maxTagLength})
    (events : List SsEvent) :
    (runFrom ssStep (newServer storagePath) events).storagePath =
      storagePath := by
  have preserved :
      ∀ ss event,
        ss.storagePath = storagePath →
          (ssStep ss event).storagePath = storagePath :=
    fun ss event same => (stepEffect ss event).storagePath_eq.trans same
  exact runFrom_invariant preserved rfl events

/--
In every run of a storage server, and so after every creation and every
`SS_RENAME`, the paths of a record with a valid name stay inside the flat
directory, whatever the tag, exactly if the name is flat.
-/
theorem pathsInside_iff_flatName
    (storagePath : {path : CString // path.length ≤ maxTagLength})
    (events : List SsEvent)
    {rec : FileRecord}
    (present :
      rec ∈ (runFrom ssStep (newServer storagePath) events).files)
    (valid : validateFilename rec.filename = true)
    (now : Int)
    (tag : CString) :
    (∀ path ∈ derivedPaths storagePath rec now tag,
        InsideDirectory storagePath path) ↔
      FlatName rec.filename := by
  have placed :=
    (recordsPlaced_run storagePath events).wellPlaced rec present
  rw [storagePath_run] at placed
  exact derivedPaths_insideDirectory_iff placed valid storagePath.property now
    tag

/-- A document that is moved into a folder. -/
def movedIntoFolder : List SsEvent :=
  [ ⟨1, .createFile [str "CREATE_FILE", str "a", str "ada"]⟩,
    ⟨2, .ssRename (str "a") (str "docs/a")⟩ ]

theorem pathsInside_beforeMove :
    ∃ rec,
      rec ∈ (runFrom ssStep (newServer ⟨str "s", by decide⟩)
          (movedIntoFolder.take 1)).files ∧
        ∀ path ∈ derivedPaths (str "s") rec 5 (str "v1"),
          InsideDirectory (str "s") path := by
  have names :
      (runFrom ssStep (newServer ⟨str "s", by decide⟩)
        (movedIntoFolder.take 1)).files.map FileRecord.filename =
        [str "a"] := by
    decide +kernel
  obtain ⟨rec, isFile, named⟩ := List.map_eq_singleton_iff.mp names
  refine ⟨rec, by simp [isFile], ?_⟩
  refine
    (pathsInside_iff_flatName ⟨str "s", by decide⟩ (movedIntoFolder.take 1)
      (by simp [isFile]) ?_ 5 (str "v1")).mpr ?_
  · rw [named]
    decide
  · rw [named]
    decide

/-- The snapshot of a document in a folder lies in a directory of its own. -/
theorem not_pathsInside_afterMove :
    ¬∀ (events : List SsEvent) (rec : FileRecord) (now : Int) (tag : CString),
      rec ∈ (runFrom ssStep (newServer ⟨str "s", by decide⟩) events).files →
        validateFilename rec.filename = true →
          ∀ path ∈ derivedPaths (str "s") rec now tag,
            InsideDirectory (str "s") path := by
  intro always
  have names :
      (runFrom ssStep (newServer ⟨str "s", by decide⟩)
        movedIntoFolder).files.map FileRecord.filename =
        [str "docs/a"] := by
    decide +kernel
  obtain ⟨rec, isFile, named⟩ := List.map_eq_singleton_iff.mp names
  have path :
      checkpointPath (str "s") rec 5 (str "v1") =
        some (str "s/docs/a.ckpt_5_v1") := by
    unfold checkpointPath
    rw [named]
    decide +kernel
  have inside :=
    always movedIntoFolder rec 5 (str "v1") (by simp [isFile])
      (by rw [named]; decide) (str "s/docs/a.ckpt_5_v1")
      (by simp [derivedPaths, path])
  have single := (insideDirectory_checkpointPath_iff path).mp inside
  rw [named] at single
  exact absurd single (by decide)

end DistributedDocs
