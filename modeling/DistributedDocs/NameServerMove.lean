import DistributedDocs.NameServerCoherence
import DistributedDocs.RenamedStore

namespace DistributedDocs

/-!
# MOVE is all or nothing

The storage servers are abstracted to what they hold under which name, and
`SS_RENAME` to a renaming that is made or refused; one rename of the command
may be refused at any position.  The plan's renamings do not meet, so either
all of them are made and the registry follows, or those made are taken back.
-/

/--
The documents of the storage servers.  `failAfter` counts the renames still
made before the one that is refused; there is none that is refused in `none`.
-/
structure DocumentStore (Document : Type) where
  documents : NamedStore Nat CString Document
  failAfter : Option Nat

/-- Storage servers that rename, or refuse with a given answer. -/
def renamingStorage
    {Document : Type}
    (refusal : SsAnswer) : Backend (DocumentStore Document) :=
  fun address fields world =>
    match fields with
    | [type, old, new, _, _] =>
        if type = str "SS_RENAME" ∧ world.failAfter ≠ some 0 ∧
            (world.documents address old).isSome = true ∧
              (world.documents address new).isNone = true then
          (.message [str "OK"],
            { documents :=
                Renaming.apply ⟨address, old, new⟩ world.documents
              failAfter := world.failAfter.map (· - 1) })
        else
          (refusal, { world with failAfter := none })
    | _ => (.unparsable, world)

/-- The renaming a plan entry asks for; folders ask for none. -/
def renamingOf (entry : MovePlanEntry) : Option (Renaming Nat CString) :=
  entry.ss.map fun address => ⟨address, entry.oldPath, entry.newPath⟩

section Asking

variable
  {Document : Type}
  {refusal : SsAnswer}
  {original documents : NamedStore Nat CString Document}
  {ns : NameServer}

/-- A rename that is due and possible. -/
theorem sendAndWait_rename
    {address : Nat}
    {old new oldFlat newFlat : CString}
    (possible : Renaming.Possible documents ⟨address, old, new⟩)
    (failAfter : Option Nat)
    (notYet : failAfter ≠ some 0) :
    sendAndWait (renamingStorage refusal) address
        [str "SS_RENAME", old, new, oldFlat, newFlat]
        ⟨ns, ⟨documents, failAfter⟩⟩ =
      .ok (.message [str "OK"])
        ⟨ns, ⟨Renaming.apply ⟨address, old, new⟩ documents,
          failAfter.map (· - 1)⟩⟩ := by
  have held := possible.held
  have free := possible.free
  simp only at held free
  simp [sendAndWait, renamingStorage, notYet, held, free]

/-- The rename that is refused. -/
theorem sendAndWait_refused
    {address : Nat}
    {old new oldFlat newFlat : CString} :
    sendAndWait (renamingStorage refusal) address
        [str "SS_RENAME", old, new, oldFlat, newFlat]
        ⟨ns, ⟨documents, some 0⟩⟩ =
      .ok refusal ⟨ns, ⟨documents, none⟩⟩ := by
  simp [sendAndWait, renamingStorage]

/-- What the renames made so far, the last one first, have made of the start. -/
inductive RenamedTo (original : NamedStore Nat CString Document) :
    List MovePlanEntry → NamedStore Nat CString Document → Prop where
  | nil :
      RenamedTo original [] original
  | cons
      {done : List MovePlanEntry}
      {documents : NamedStore Nat CString Document}
      {entry : MovePlanEntry}
      {address : Nat}
      (earlier : RenamedTo original done documents)
      (home : entry.ss = some address)
      (possible :
        Renaming.Possible documents
          ⟨address, entry.oldPath, entry.newPath⟩) :
      RenamedTo original (entry :: done)
        (Renaming.apply ⟨address, entry.oldPath, entry.newPath⟩ documents)

/-- The rollback takes everything back. -/
theorem rollbackRenames_restores
    {done : List MovePlanEntry}
    (renamed : RenamedTo original done documents) :
    rollbackRenames (renamingStorage refusal) done
        ⟨ns, ⟨documents, none⟩⟩ =
      .ok () ⟨ns, ⟨original, none⟩⟩ := by
  induction renamed with
  | nil =>
      rfl
  | cons earlier home possible inductionHypothesis =>
      have back := possible.inverse
      have restored := possible.apply_inverse
      simp only [Renaming.inverse] at back restored
      simp only [rollbackRenames, home, rollbackRequest, bind_apply,
        sendAndWait_rename back none (by simp), restored, Option.map_none]
      exact inductionHypothesis

/-- Either all renames of the plan are made, or none is left. -/
theorem renameOnStorage_allOrNothing
    (isRefusal : (renameFailure refusal).isSome = true)
    {done plan : List MovePlanEntry}
    (renamed : RenamedTo original done documents)
    (apart : Renaming.Apart documents (plan.filterMap renamingOf))
    (failAfter : Option Nat) :
    (∃ left,
        renameOnStorage (renamingStorage refusal) done plan
            ⟨ns, ⟨documents, failAfter⟩⟩ =
          .ok ()
            ⟨ns, ⟨Renaming.applyAll (plan.filterMap renamingOf) documents,
              left⟩⟩) ∨
      ∃ error,
        renameOnStorage (renamingStorage refusal) done plan
            ⟨ns, ⟨documents, failAfter⟩⟩ =
          .error error ⟨ns, ⟨original, none⟩⟩ := by
  induction plan generalizing done documents failAfter with
  | nil =>
      exact Or.inl ⟨failAfter, rfl⟩
  | cons entry rest inductionHypothesis =>
      cases home : entry.ss with
      | none =>
          have skipped : renamingOf entry = none := by
            simp [renamingOf, home]
          simp only [List.filterMap_cons, skipped] at apart ⊢
          simp only [renameOnStorage, home]
          exact inductionHypothesis renamed apart failAfter
      | some address =>
          have asks :
              renamingOf entry =
                some ⟨address, entry.oldPath, entry.newPath⟩ := by
            simp [renamingOf, home]
          simp only [List.filterMap_cons, asks] at apart ⊢
          simp only [renameOnStorage, home, renameRequest, bind_apply]
          by_cases refused : failAfter = some 0
          · subst refused
            obtain ⟨error, failure⟩ := Option.isSome_iff_exists.mp isRefusal
            refine Or.inr ⟨error, ?_⟩
            simp only [sendAndWait_refused, failure, bind_apply,
              rollbackRenames_restores renamed, throw_apply]
          · simp only [sendAndWait_rename apart.possible failAfter refused]
            have accepted :
                renameFailure (.message [str "OK"]) = none := by
              decide
            simp only [accepted]
            exact inductionHypothesis
              (renamed.cons home apart.possible) apart.tail _

end Asking

/-! ## What MOVE is for -/

/-- The last segment of a path. -/
def baseNameOf (path : CString) : CString :=
  (path.reverse.takeWhile fun c => c ≠ CChar.ofChar '/').reverse

/-- The destination path: the destination folder and the source's base name. -/
def destinationPath (srcPath destFolder : CString) : CString :=
  if destFolder = str "." ∨ destFolder = str "/" then baseNameOf srcPath
  else destFolder ++ str "/" ++ baseNameOf srcPath

/-- Whether a name is the source, or below it if it is a folder. -/
def GoesAlong (source : FileMetadata) (name : CString) : Prop :=
  name = source.filename ∨
    source.isDirectory = true ∧ source.filename ++ str "/" <+: name

instance (source : FileMetadata) (name : CString) :
    Decidable (GoesAlong source name) :=
  inferInstanceAs (Decidable (_ ∨ _))

/-- The name an entry has after the move. -/
def nameAfterMove
    (source : FileMetadata)
    (destFolder name : CString) : CString :=
  if GoesAlong source name then
    destinationPath source.filename destFolder ++
      name.drop source.filename.length
  else
    name

/-- Each storage server holds the documents of the files homed on it. -/
def HoldsHomed
    {Document : Type}
    (state : NsState (DocumentStore Document)) : Prop :=
  ∀ address name,
    (state.world.documents address name).isSome = true ↔
      ∃ file ∈ state.ns.files,
        file.isDirectory = false ∧ file.filename = name ∧
          (homeOf file state.ns).map StorageServerInfo.address =
            some address

/-- The source and what is below it have moved, and nothing else has. -/
structure MovedTree
    {Document : Type}
    (now : Int)
    (username : CString)
    (source : FileMetadata)
    (destFolder : CString)
    (before after : NsState (DocumentStore Document)) : Prop where
  present : source ∈ before.ns.files
  coherent : Coherent after.ns
  entries :
    after.ns.files =
      before.ns.files.map fun file =>
        if GoesAlong source file.filename then
          renamedMetadata now username
            (nameAfterMove source destFolder file.filename) file
        else
          file
  names :
    after.ns.files.map FileMetadata.filename =
      before.ns.files.map fun file =>
        nameAfterMove source destFolder file.filename
  documents :
    ∀ address, ∀ file ∈ before.ns.files,
      after.world.documents address
          (nameAfterMove source destFolder file.filename) =
        before.world.documents address file.filename
  nothingElse :
    ∀ address name,
      name ∉ after.ns.files.map FileMetadata.filename →
        after.world.documents address name = none

section Purpose

variable
  {username srcPath destFolder destination baseName finalRoot : CString}
  {source : FileMetadata}
  {plan : List MovePlanEntry}
  {ns : NameServer}

theorem goesAlong_iff (name : CString) :
    GoesAlong source name ↔
      takenAlong source.filename source.isDirectory name = true := by
  rw [takenAlong_iff, GoesAlong]
  refine or_congr_right (and_congr_right fun _ => ?_)
  constructor
  · rintro ⟨rest, rfl⟩
    exact ⟨rest, by rw [List.append_assoc]; rfl⟩
  · rintro ⟨rest, rfl⟩
    exact ⟨rest, by rw [List.append_assoc]; rfl⟩

theorem length_baseNameOf_le (path : CString) :
    (baseNameOf path).length ≤ path.length := by
  have shorter :=
    (List.takeWhile_prefix (l := path.reverse)
      fun c => decide (c ≠ CChar.ofChar '/')).length_le
  simpa [baseNameOf] using shorter

/-- The base name `ns_split_parent_child` finds. -/
theorem baseName_of_split
    {parent : CString}
    (short : srcPath.length < maxFilenameLength)
    (isSplit : nsSplitParentChild srcPath = some (parent, baseName)) :
    baseName = baseNameOf srcPath := by
  have baseShort := (length_baseNameOf_le srcPath).trans_lt short
  simp only [nsSplitParentChild, List.span_eq_takeWhile_dropWhile] at isSplit
  split at isSplit
  · next atTop =>
    cases isSplit
    have whole :
        srcPath.reverse.takeWhile (fun c => decide (c ≠ CChar.ofChar '/')) =
          srcPath.reverse := by
      have parts := List.takeWhile_append_dropWhile
        (p := fun c => decide (c ≠ CChar.ofChar '/')) (l := srcPath.reverse)
      rw [atTop, List.append_nil] at parts
      exact parts
    rw [baseNameOf, whole, List.reverse_reverse, safeStrcpy_of_short short]
  · split at isSplit
    · cases isSplit
    · cases isSplit
      exact safeStrcpy_of_short baseShort

/-- The new root the plan is about. -/
theorem PlannedMoves.finalRoot_eq_destinationPath
    (planned :
      PlannedMoves ns username srcPath destination source baseName finalRoot
        plan)
    (normalized : nsNormalizeDestination destFolder = some destination) :
    finalRoot = destinationPath srcPath destFolder := by
  have short : srcPath.length < maxFilenameLength := by
    rw [← planned.named]
    exact source.filename_short
  obtain ⟨parent, isSplit⟩ := planned.baseName_eq
  have isBase := baseName_of_split short isSplit
  have baseShort := (length_baseNameOf_le srcPath).trans_lt short
  have isRoot := planned.finalRoot_eq
  unfold nsNormalizeDestination at normalized
  unfold destinationPath
  split at normalized
  · next atTop =>
    cases normalized
    rw [if_pos atTop]
    simp only [finalRootPath, ↓reduceIte, Option.some.injEq] at isRoot
    rw [← isRoot, isBase, safeStrcpy_of_short baseShort]
  · next notTop =>
    rw [if_neg notTop]
    split at normalized
    · next valid =>
      cases normalized
      have destShort := length_lt_of_nsValidateLogicalPath valid
      rw [safeStrcpy_of_short destShort] at isRoot
      simp only [finalRootPath, nonempty_of_nsValidateLogicalPath valid,
        ↓reduceIte] at isRoot
      split at isRoot
      · cases isRoot
      · rw [← Option.some.inj isRoot, isBase]
    · cases normalized

/-- The name a plan entry gives is the name after the move. -/
theorem PlannedMoves.newPath_eq
    (planned :
      PlannedMoves ns username srcPath destination source baseName finalRoot
        plan)
    (normalized : nsNormalizeDestination destFolder = some destination)
    {entry : MovePlanEntry}
    (member : entry ∈ plan) :
    GoesAlong source entry.oldPath ∧
      entry.newPath = nameAfterMove source destFolder entry.oldPath := by
  obtain ⟨file, _, taken, plannedEntry⟩ := planned.exists_file member
  obtain ⟨_, rest, isOld, isNew⟩ := planned.paths member
  have goes : GoesAlong source entry.oldPath := by
    rw [goesAlong_iff, planned.named, plannedEntry.oldPath]
    exact taken
  refine ⟨goes, ?_⟩
  rw [nameAfterMove, if_pos goes, planned.named, isNew, isOld,
    planned.finalRoot_eq_destinationPath normalized, List.drop_left]

/-- An entry that goes along is in the plan. -/
theorem PlannedMoves.exists_entry
    (planned :
      PlannedMoves ns username srcPath destination source baseName finalRoot
        plan)
    {file : FileMetadata}
    (present : file ∈ ns.files)
    (goes : GoesAlong source file.filename) :
    ∃ entry ∈ plan,
      PlannedMove ns username srcPath finalRoot file entry := by
  have taken :
      file ∈ ns.files.filter fun file =>
        takenAlong srcPath source.isDirectory file.filename := by
    rw [List.mem_filter, ← planned.named]
    exact ⟨present, (goesAlong_iff _).mp goes⟩
  exact exists_of_forall₂_left planned.entries taken

end Purpose

section Result

variable
  {Document : Type}
  {now : Int}
  {username srcPath destFolder destination baseName finalRoot : CString}
  {source : FileMetadata}
  {plan : List MovePlanEntry}
  {start looked : NsState (DocumentStore Document)}

theorem mem_filterMap_renamingOf
    {change : Renaming Nat CString} :
    change ∈ plan.filterMap renamingOf ↔
      ∃ entry ∈ plan,
        entry.ss = some change.server ∧ entry.oldPath = change.old ∧
          entry.newPath = change.new := by
  rw [List.mem_filterMap]
  refine exists_congr fun entry => and_congr_right fun _ => ?_
  cases home : entry.ss with
  | none =>
      simp [renamingOf, home]
  | some address =>
      simp only [renamingOf, home, Option.map_some, Option.some.injEq]
      constructor
      · rintro rfl
        exact ⟨rfl, rfl, rfl⟩
      · rintro ⟨rfl, isOld, isNew⟩
        rw [isOld, isNew]

theorem nodup_filterMap_renamingOf
    {ofEntry : MovePlanEntry → CString}
    {ofRenaming : Renaming Nat CString → CString}
    (nodup : (plan.map ofEntry).Nodup)
    (same :
      ∀ (entry : MovePlanEntry) (change : Renaming Nat CString),
        entry.oldPath = change.old → entry.newPath = change.new →
          ofRenaming change = ofEntry entry) :
    ((plan.filterMap renamingOf).map ofRenaming).Nodup := by
  rw [List.Nodup, List.pairwise_map, List.pairwise_filterMap]
  rw [List.Nodup, List.pairwise_map] at nodup
  refine nodup.imp fun different first isFirst second isSecond equal => ?_
  simp only [renamingOf, Option.map_eq_some_iff] at isFirst isSecond
  obtain ⟨_, _, rfl⟩ := isFirst
  obtain ⟨_, _, rfl⟩ := isSecond
  apply different
  rwa [same _ _ rfl rfl, same _ _ rfl rfl] at equal

/-- The renamings of a plan do not meet. -/
theorem PlannedMoves.apart
    (planned :
      PlannedMoves start.ns username srcPath destination source baseName
        finalRoot plan)
    (coherent : Coherent start.ns)
    (holds : HoldsHomed start) :
    Renaming.Apart start.world.documents (plan.filterMap renamingOf) := by
  have renamesApart := planned.renamesApart coherent.names_nodup
  have oldsNodup : (plan.map MovePlanEntry.oldPath).Nodup := by
    rw [planned.oldPaths]
    exact coherent.names_nodup.sublist (List.filter_sublist.map _)
  exact
    { held := fun change member => by
        obtain ⟨entry, held, home, isOld, _⟩ :=
          mem_filterMap_renamingOf.mp member
        obtain ⟨file, present, _, plannedEntry⟩ := planned.exists_file held
        rw [holds, ← isOld, plannedEntry.oldPath]
        have notFolder : file.isDirectory = false := by
          rw [← Bool.not_eq_true]
          intro folder
          rw [plannedEntry.folder folder] at home
          cases home
        obtain ⟨ss, isHome, isServer⟩ := plannedEntry.home notFolder
        refine ⟨file, present, notFolder, rfl, ?_⟩
        rw [isHome, Option.map_some, ← isServer, home]
      free := fun change member => by
        obtain ⟨entry, held, _, _, isNew⟩ :=
          mem_filterMap_renamingOf.mp member
        rw [← Option.not_isSome_iff_eq_none, holds]
        rintro ⟨file, present, _, named, _⟩
        apply planned.fresh held
        rw [isNew, ← named]
        exact List.mem_map_of_mem present
      olds_nodup :=
        nodup_filterMap_renamingOf oldsNodup fun _ _ isOld _ => isOld.symm
      news_nodup :=
        nodup_filterMap_renamingOf renamesApart.apart
          fun _ _ _ isNew => isNew.symm
      new_ne_old := fun change member other otherMember same => by
        obtain ⟨entry, held, _, _, isNew⟩ :=
          mem_filterMap_renamingOf.mp member
        obtain ⟨otherEntry, otherHeld, _, isOld, _⟩ :=
          mem_filterMap_renamingOf.mp otherMember
        apply planned.fresh held
        rw [isNew, same, ← isOld]
        exact planned.oldPath_mem otherHeld }

/-- What the application of the plan makes of the entries. -/
theorem PlannedMoves.entries_after
    (planned :
      PlannedMoves start.ns username srcPath destination source baseName
        finalRoot plan)
    (coherent : Coherent start.ns)
    (normalized : nsNormalizeDestination destFolder = some destination)
    {file : FileMetadata}
    (present : file ∈ start.ns.files) :
    plan.foldl (renamedEntry now username) file =
      if GoesAlong source file.filename then
        renamedMetadata now username
          (nameAfterMove source destFolder file.filename) file
      else
        file := by
  rw [foldl_renamedEntry (planned.renamesApart coherent.names_nodup)
    fun _ held => planned.oldPath_mem held]
  split
  · next entry found =>
    have held := List.mem_of_find?_eq_some found
    have isOld : entry.oldPath = file.filename := by
      simpa using List.find?_some found
    obtain ⟨goes, isNew⟩ := planned.newPath_eq normalized held
    rw [isOld] at goes isNew
    rw [if_pos goes, isNew]
  · next absent =>
    rw [if_neg]
    intro goes
    obtain ⟨entry, held, plannedEntry⟩ := planned.exists_entry present goes
    have refused := List.find?_eq_none.mp absent entry held
    simp [plannedEntry.oldPath] at refused

/-- A taken file's renaming is in the plan, on the server it is homed on. -/
theorem PlannedMoves.exists_renaming
    (planned :
      PlannedMoves start.ns username srcPath destination source baseName
        finalRoot plan)
    (normalized : nsNormalizeDestination destFolder = some destination)
    {file : FileMetadata}
    (present : file ∈ start.ns.files)
    (goes : GoesAlong source file.filename)
    (notFolder : file.isDirectory = false)
    {address : Nat}
    (homed :
      (homeOf file start.ns).map StorageServerInfo.address =
        some address) :
    (⟨address, file.filename,
        nameAfterMove source destFolder file.filename⟩ :
      Renaming Nat CString) ∈ plan.filterMap renamingOf := by
  obtain ⟨entry, held, plannedEntry⟩ := planned.exists_entry present goes
  obtain ⟨ss, isHome, isServer⟩ := plannedEntry.home notFolder
  have isNew := (planned.newPath_eq normalized held).2
  rw [plannedEntry.oldPath] at isNew
  rw [isHome, Option.map_some] at homed
  exact mem_filterMap_renamingOf.mpr
    ⟨entry, held, isServer.trans homed, plannedEntry.oldPath, isNew⟩

/-- Every renaming of the plan is that of a taken file. -/
theorem PlannedMoves.renaming_file
    (planned :
      PlannedMoves start.ns username srcPath destination source baseName
        finalRoot plan)
    (normalized : nsNormalizeDestination destFolder = some destination)
    {change : Renaming Nat CString}
    (member : change ∈ plan.filterMap renamingOf) :
    ∃ file ∈ start.ns.files,
      (GoesAlong source file.filename ∧ file.isDirectory = false ∧
        (homeOf file start.ns).map StorageServerInfo.address =
          some change.server) ∧
        file.filename = change.old ∧
          nameAfterMove source destFolder file.filename = change.new := by
  obtain ⟨entry, held, home, isOld, isNew⟩ :=
    mem_filterMap_renamingOf.mp member
  obtain ⟨file, present, _, plannedEntry⟩ := planned.exists_file held
  obtain ⟨goes, moved⟩ := planned.newPath_eq normalized held
  rw [plannedEntry.oldPath] at goes moved isOld
  have notFolder : file.isDirectory = false := by
    rw [← Bool.not_eq_true]
    intro folder
    rw [plannedEntry.folder folder] at home
    cases home
  obtain ⟨ss, isHome, isServer⟩ := plannedEntry.home notFolder
  refine ⟨file, present, ⟨goes, notFolder, ?_⟩, isOld, moved ▸ isNew⟩
  rw [isHome, Option.map_some, ← isServer, home]

/-- A name given by the move was no entry's. -/
theorem PlannedMoves.nameAfterMove_fresh
    (planned :
      PlannedMoves start.ns username srcPath destination source baseName
        finalRoot plan)
    (normalized : nsNormalizeDestination destFolder = some destination)
    {file : FileMetadata}
    (present : file ∈ start.ns.files)
    (goes : GoesAlong source file.filename) :
    ∃ entry ∈ plan,
      entry.oldPath = file.filename ∧
        entry.newPath = nameAfterMove source destFolder file.filename ∧
          nameAfterMove source destFolder file.filename ∉
            start.ns.files.map FileMetadata.filename := by
  obtain ⟨entry, held, plannedEntry⟩ := planned.exists_entry present goes
  have isNew := (planned.newPath_eq normalized held).2
  rw [plannedEntry.oldPath] at isNew
  exact ⟨entry, held, plannedEntry.oldPath, isNew,
    isNew ▸ planned.fresh held⟩

/-- The names after the move are apart. -/
theorem PlannedMoves.nameAfterMove_inj
    (planned :
      PlannedMoves start.ns username srcPath destination source baseName
        finalRoot plan)
    (coherent : Coherent start.ns)
    (normalized : nsNormalizeDestination destFolder = some destination)
    {file other : FileMetadata}
    (present : file ∈ start.ns.files)
    (otherPresent : other ∈ start.ns.files)
    (same :
      nameAfterMove source destFolder file.filename =
        nameAfterMove source destFolder other.filename) :
    file = other := by
  by_cases goes : GoesAlong source file.filename
  · obtain ⟨entry, held, isOld, isNew, fresh⟩ :=
      planned.nameAfterMove_fresh normalized present goes
    by_cases otherGoes : GoesAlong source other.filename
    · obtain ⟨otherEntry, otherHeld, otherOld, otherNew, _⟩ :=
        planned.nameAfterMove_fresh normalized otherPresent otherGoes
      have sameEntry : entry = otherEntry :=
        List.inj_on_of_nodup_map
          (planned.renamesApart coherent.names_nodup).apart held otherHeld
          (isNew.trans (same.trans otherNew.symm))
      apply eq_of_filename coherent.names_nodup present otherPresent
      rw [← isOld, sameEntry, otherOld]
    · rw [same, nameAfterMove, if_neg otherGoes] at fresh
      exact absurd (List.mem_map_of_mem otherPresent) fresh
  · by_cases otherGoes : GoesAlong source other.filename
    · obtain ⟨_, _, _, _, fresh⟩ :=
        planned.nameAfterMove_fresh normalized otherPresent otherGoes
      rw [← same, nameAfterMove, if_neg goes] at fresh
      exact absurd (List.mem_map_of_mem present) fresh
    · rw [nameAfterMove, if_neg goes, nameAfterMove, if_neg otherGoes]
        at same
      exact eq_of_filename coherent.names_nodup present otherPresent same

/-- No server holds a document of a name that is no file's it homes. -/
theorem HoldsHomed.eq_none
    (holds : HoldsHomed start)
    {address : Nat}
    {name : CString}
    (notHomed :
      ∀ file ∈ start.ns.files, file.isDirectory = false →
        file.filename = name →
          (homeOf file start.ns).map StorageServerInfo.address ≠
            some address) :
    start.world.documents address name = none := by
  rw [← Option.not_isSome_iff_eq_none, holds]
  rintro ⟨file, present, notFolder, named, homed⟩
  exact notHomed file present notFolder named homed

/-- The documents after the renames of the plan. -/
theorem PlannedMoves.documents_after
    (planned :
      PlannedMoves start.ns username srcPath destination source baseName
        finalRoot plan)
    (coherent : Coherent start.ns)
    (holds : HoldsHomed start)
    (normalized : nsNormalizeDestination destFolder = some destination)
    (address : Nat)
    {file : FileMetadata}
    (present : file ∈ start.ns.files) :
    Renaming.applyAll (plan.filterMap renamingOf) start.world.documents
        address (nameAfterMove source destFolder file.filename) =
      start.world.documents address file.filename := by
  have apart := planned.apart coherent holds
  by_cases moves :
      GoesAlong source file.filename ∧ file.isDirectory = false ∧
        (homeOf file start.ns).map StorageServerInfo.address = some address
  · obtain ⟨goes, notFolder, homed⟩ := moves
    exact (apart.applyAll
      (planned.exists_renaming normalized present goes notFolder homed)).1
  · have untouched :
        ∀ change ∈ plan.filterMap renamingOf, address = change.server →
          nameAfterMove source destFolder file.filename ≠ change.new ∧
            nameAfterMove source destFolder file.filename ≠ change.old := by
      rintro change member rfl
      obtain ⟨other, otherPresent, otherMoves, isOld, isNew⟩ :=
        planned.renaming_file normalized member
      constructor
      · intro same
        obtain rfl := planned.nameAfterMove_inj coherent normalized present
          otherPresent (same.trans isNew.symm)
        exact moves otherMoves
      · intro same
        by_cases goes : GoesAlong source file.filename
        · obtain ⟨_, _, _, _, fresh⟩ :=
            planned.nameAfterMove_fresh normalized present goes
          rw [same, ← isOld] at fresh
          exact fresh (List.mem_map_of_mem otherPresent)
        · rw [nameAfterMove, if_neg goes, ← isOld] at same
          obtain rfl := eq_of_filename coherent.names_nodup present
            otherPresent same
          exact goes otherMoves.1
    rw [Renaming.applyAll_of_not_mem untouched]
    by_cases goes : GoesAlong source file.filename
    · obtain ⟨_, _, _, _, fresh⟩ :=
        planned.nameAfterMove_fresh normalized present goes
      rw [holds.eq_none, holds.eq_none]
      · intro other otherPresent notFolder named homed
        obtain rfl := eq_of_filename coherent.names_nodup otherPresent present
          named
        exact moves ⟨goes, notFolder, homed⟩
      · intro other otherPresent _ named _
        exact fresh (named ▸ List.mem_map_of_mem otherPresent)
    · rw [nameAfterMove, if_neg goes]

/-- Nothing is left under a name no entry has after the move. -/
theorem PlannedMoves.nothing_after
    (planned :
      PlannedMoves start.ns username srcPath destination source baseName
        finalRoot plan)
    (coherent : Coherent start.ns)
    (holds : HoldsHomed start)
    (normalized : nsNormalizeDestination destFolder = some destination)
    (address : Nat)
    {name : CString}
    (unnamed :
      ∀ file ∈ start.ns.files,
        nameAfterMove source destFolder file.filename ≠ name) :
    Renaming.applyAll (plan.filterMap renamingOf) start.world.documents
      address name = none := by
  have apart := planned.apart coherent holds
  by_cases wasOld :
      ∃ change ∈ plan.filterMap renamingOf,
        address = change.server ∧ name = change.old
  · obtain ⟨change, member, rfl, rfl⟩ := wasOld
    exact (apart.applyAll member).2
  · rw [Renaming.applyAll_of_not_mem]
    · apply holds.eq_none
      intro file present notFolder named homed
      by_cases goes : GoesAlong source file.filename
      · exact wasOld ⟨_, planned.exists_renaming normalized present goes
          notFolder homed, rfl, named.symm⟩
      · apply unnamed file present
        rw [nameAfterMove, if_neg goes, named]
    · intro change member isServer
      obtain ⟨file, present, _, _, isNew⟩ :=
        planned.renaming_file normalized member
      exact ⟨fun same => unnamed file present (isNew.trans same.symm),
        fun same => wasOld ⟨change, member, isServer, same⟩⟩

/-- The registry and the documents after a `MOVE` all of whose renames are made. -/
theorem movedTree_of_planned
    (planned :
      PlannedMoves start.ns username srcPath destination source baseName
        finalRoot plan)
    (coherent : Coherent start.ns)
    (holds : HoldsHomed start)
    (known : Looked start looked)
    (normalized : nsNormalizeDestination destFolder = some destination)
    (left : Option Nat) :
    MovedTree now username source destFolder start
      ⟨applyMove now username plan looked.ns,
        ⟨Renaming.applyAll (plan.filterMap renamingOf)
          start.world.documents, left⟩⟩ := by
  have apart := planned.renamesApart coherent.names_nodup
  rw [← known.onlyCache.files] at apart
  obtain ⟨finalCoherent, files⟩ :=
    known.coherent.applyMove now username apart
  rw [known.onlyCache.files] at files
  have entries :
      (applyMove now username plan looked.ns).files =
        start.ns.files.map fun file =>
          if GoesAlong source file.filename then
            renamedMetadata now username
              (nameAfterMove source destFolder file.filename) file
          else
            file := by
    rw [files]
    exact List.map_congr_left fun file present =>
      planned.entries_after coherent normalized present
  have names :
      (applyMove now username plan looked.ns).files.map
          FileMetadata.filename =
        start.ns.files.map fun file =>
          nameAfterMove source destFolder file.filename := by
    rw [entries, List.map_map]
    refine List.map_congr_left fun file present => ?_
    by_cases goes : GoesAlong source file.filename
    · obtain ⟨entry, held, _, isNew, _⟩ :=
        planned.nameAfterMove_fresh normalized present goes
      have short := (planned.paths held).1
      rw [isNew] at short
      simp [goes, renamedMetadata, safeStrcpy_of_short short]
    · simp [goes, nameAfterMove]
  exact
    { present := planned.present
      coherent := finalCoherent
      entries := entries
      names := names
      documents := fun address file present =>
        planned.documents_after coherent holds normalized address present
      nothingElse := fun address name unnamed => by
        rw [names] at unnamed
        refine planned.nothing_after coherent holds normalized address
          fun file present same => unnamed ?_
        exact same ▸ List.mem_map_of_mem present }

end Result

/--
`MOVE` moves the whole tree on the registry and on the storage servers, or it
replies with an error and changes no entry and no document, whatever rename is
refused.
-/
theorem move_allOrNothing
    {Document : Type}
    (refusal : SsAnswer)
    (isRefusal : (renameFailure refusal).isSome = true)
    (start : NsState (DocumentStore Document))
    (coherent : Coherent start.ns)
    (holds : HoldsHomed start)
    (now : Int)
    (username : CString)
    (msg : List CString) :
    match handleMove (renamingStorage refusal) now username msg start with
    | .ok _ final =>
        ∃ type srcPath destFolder rest source,
          msg = type :: srcPath :: destFolder :: rest ∧
            source.filename = srcPath ∧
              MovedTree now username source destFolder start final
    | .error _ final =>
        final.ns.files = start.ns.files ∧
          final.world.documents = start.world.documents := by
  have ends :=
    @triple_handleMove _ (renamingStorage refusal) now username start msg
      start (Looked.refl coherent)
  have attempted :
      ∀ {plan : List MovePlanEntry}
        {looked : NsState (DocumentStore Document)}
        {srcPath destination baseName finalRoot : CString}
        {source : FileMetadata},
        Looked start looked →
          PlannedMoves start.ns username srcPath destination source baseName
              finalRoot plan →
            (∃ left,
              renameOnStorage (renamingStorage refusal) [] plan looked =
                .ok ()
                  ⟨looked.ns,
                    ⟨Renaming.applyAll (plan.filterMap renamingOf)
                      start.world.documents, left⟩⟩) ∨
            ∃ error,
              renameOnStorage (renamingStorage refusal) [] plan looked =
                .error error
                  ⟨looked.ns, ⟨start.world.documents, none⟩⟩ := by
    intro plan looked _ _ _ _ _ known planned
    obtain ⟨ns, world⟩ := looked
    obtain rfl : world = start.world := known.sameWorld
    exact renameOnStorage_allOrNothing isRefusal .nil
      (planned.apart coherent holds) start.world.failAfter
  cases outcome : handleMove (renamingStorage refusal) now username msg start
    with
  | ok reply final =>
      rw [outcome] at ends
      obtain ⟨type, srcPath, destFolder, rest, plan, looked, renamed, isMsg,
        ⟨known, destination, source, baseName, finalRoot, normalized,
        planned⟩, renames, rfl⟩ := ends
      refine ⟨type, srcPath, destFolder, rest, source, isMsg, planned.named,
        ?_⟩
      rcases attempted known planned with ⟨left, made⟩ | ⟨error, refused⟩
      · rw [made] at renames
        cases renames
        exact movedTree_of_planned planned coherent holds known normalized
          left
      · rw [refused] at renames
        cases renames
  | error error final =>
      rw [outcome] at ends
      rcases ends with looked | ⟨type, srcPath, destFolder, rest, plan,
        looked, refused, isMsg, ⟨known, destination, source, baseName,
        finalRoot, normalized, planned⟩, renames⟩
      · exact ⟨looked.onlyCache.files,
          congrArg DocumentStore.documents looked.sameWorld⟩
      · rcases attempted known planned with ⟨left, made⟩ | ⟨error, refused⟩
        · rw [made] at renames
          cases renames
        · rw [refused] at renames
          cases renames
          exact ⟨known.onlyCache.files, rfl⟩

/-! ## A folder that is moved -/

/-- Every storage server holds the files homed on it, by their numbers. -/
def documentsOf (ns : NameServer) : NamedStore Nat CString Nat :=
  fun address name =>
    (ns.files.find? fun file =>
      (!file.isDirectory && file.filename = name) &&
        (homeOf file ns).map StorageServerInfo.address =
          some address).map FileMetadata.document

theorem holdsHomed_documentsOf
    (ns : NameServer)
    (failAfter : Option Nat) :
    HoldsHomed ⟨ns, ⟨documentsOf ns, failAfter⟩⟩ := by
  intro address name
  simp only [documentsOf, Option.isSome_map, List.find?_isSome,
    Bool.and_eq_true, Bool.not_eq_true', decide_eq_true_eq, and_assoc]

/-- A registry with a folder `box`, a file in it, and a folder `old`. -/
def boxRegistry : NameServer :=
  (runFrom (nsStep acceptingStorage) ⟨nsInit, ()⟩
    [.servers [someStorageServer],
      .command 1 (str "ada") (.createFolder [str "CREATEFOLDER", str "box"]),
      .command 2 (str "ada") (.create [str "CREATE", str "box/plan"]),
      .command 3 (str "ada")
        (.createFolder [str "CREATEFOLDER", str "old"])]).ns

/-- The registry with the documents of its files; no rename is refused. -/
def boxState : NsState (DocumentStore Nat) :=
  ⟨boxRegistry, ⟨documentsOf boxRegistry, none⟩⟩

/-- The folder and its file are moved. -/
theorem move_allOrNothing_box :
    ∃ source,
      source.filename = str "box" ∧
        MovedTree 9 (str "ada") source (str "old") boxState
          (finalState
            (handleMove (renamingStorage (.failed (-5))) 9 (str "ada")
              [str "MOVE", str "box", str "old"] boxState)) := by
  have whole :=
    move_allOrNothing (.failed (-5)) (by decide) boxState
      (registry_reachable acceptingStorage () _).coherent
      (holdsHomed_documentsOf boxRegistry none) 9 (str "ada")
      [str "MOVE", str "box", str "old"]
  have renamed :
      (finalState
        (handleMove (renamingStorage (.failed (-5))) 9 (str "ada")
          [str "MOVE", str "box", str "old"] boxState)).ns.files.map
            FileMetadata.filename =
        [str "old/box", str "old/box/plan", str "old"] := by
    decide +kernel
  cases outcome :
      handleMove (renamingStorage (.failed (-5))) 9 (str "ada")
        [str "MOVE", str "box", str "old"] boxState with
  | ok reply final =>
      rw [outcome] at whole
      obtain ⟨_, _, _, _, source, isMsg, named, moved⟩ := whole
      cases isMsg
      exact ⟨source, named, moved⟩
  | error error final =>
      rw [outcome] at whole renamed
      rw [finalState_error, whole.1] at renamed
      exact absurd renamed (by decide +kernel)

end DistributedDocs
