import DistributedDocs.NameServerLookup

namespace DistributedDocs

/-!
# What the commands find out before they act

Every command first looks: it changes the cache only, and what it returns is
about the registry it started from.  The plans of `MOVE` and `DELETE` list the
entries that are taken along, each with its new name or its storage server.
-/

section Looking

variable {World : Type}

/-- A state that only lookups separate from `start`. -/
structure Looked (start state : NsState World) : Prop where
  coherent : Coherent state.ns
  onlyCache : OnlyCacheChanged start.ns state.ns
  sameWorld : state.world = start.world

/-- A program that only looks, and returns what is true of `start`. -/
def Finds
    {α : Type}
    (start : NsState World)
    (fact : α → Prop)
    (program : NsHandler World α) : Prop :=
  Triple (Looked start) program
    (fun value state => fact value ∧ Looked start state) (Looked start)

variable
  {α β : Type}
  {start : NsState World}

theorem OnlyCacheChanged.files
    {before after : NameServer}
    (only : OnlyCacheChanged before after) :
    after.files = before.files := by
  unfold OnlyCacheChanged at only
  rw [only]

theorem OnlyCacheChanged.storageServers
    {before after : NameServer}
    (only : OnlyCacheChanged before after) :
    after.storageServers = before.storageServers := by
  unfold OnlyCacheChanged at only
  rw [only]

theorem OnlyCacheChanged.trans
    {first second third : NameServer}
    (earlier : OnlyCacheChanged first second)
    (later : OnlyCacheChanged second third) :
    OnlyCacheChanged first third := by
  unfold OnlyCacheChanged at earlier later ⊢
  rw [later, earlier]

theorem Looked.refl
    (coherent : Coherent start.ns) :
    Looked start start :=
  ⟨coherent, rfl, rfl⟩

namespace Finds

theorem pure
    {fact : α → Prop}
    {value : α}
    (holds : fact value) :
    Finds start fact (Pure.pure value : NsHandler World α) :=
  Triple.pure fun _ looked => ⟨holds, looked⟩

theorem refuse
    {fact : α → Prop}
    (code : Int)
    (text : String) :
    Finds start fact (nsRefuse code text : NsHandler World α) :=
  Triple.throw fun _ looked => looked

theorem bind
    {found : α → Prop}
    {fact : β → Prop}
    {program : NsHandler World α}
    {next : α → NsHandler World β}
    (first : Finds start found program)
    (second : ∀ value, found value → Finds start fact (next value)) :
    Finds start fact (program >>= next) :=
  Triple.bind first fun value state holds =>
    second value holds.1 state holds.2

/-- First look, then act on what has been found. -/
theorem andThen
    {found : α → Prop}
    {program : NsHandler World α}
    {next : α → NsHandler World β}
    {after : β → NsState World → Prop}
    {failed : NsState World → Prop}
    (finds : Finds start found program)
    (leaves : ∀ state, Looked start state → failed state)
    (acts :
      ∀ value, found value →
        Triple (Looked start) (next value) after failed) :
    Triple (Looked start) (program >>= next) after failed :=
  Triple.bind (Triple.mono finds (fun _ => id) (fun _ _ => id) leaves)
    fun value state holds => acts value holds.1 state holds.2

/-- A check made only under a condition. -/
theorem optional
    {condition p : Prop}
    [Decidable condition]
    {fact : β → Prop}
    {program : NsHandler World PUnit}
    {next : PUnit → NsHandler World β}
    (checked : condition → Finds start (fun _ => p) program)
    (unchecked : ¬condition → p)
    (second : p → Finds start fact (next PUnit.unit)) :
    Finds start fact
      (if condition then program >>= next else next PUnit.unit) := by
  split
  · next holds =>
    exact bind (checked holds) fun _ => second
  · next fails =>
    exact second (unchecked fails)

theorem ensure
    {condition : Bool}
    {code : Int}
    {text : String} :
    Finds start (fun _ => condition = true)
      (nsEnsure condition code text : NsHandler World Unit) := by
  unfold nsEnsure
  split
  · next holds =>
    exact pure holds
  · exact refuse code text

/-- What the code reads is what the start has, unless it reads the cache. -/
theorem read
    {look : NameServer → α}
    (uncached :
      ∀ state, OnlyCacheChanged start.ns state → look state = look start.ns) :
    Finds start (fun value => value = look start.ns)
      (readNs look : NsHandler World α) :=
  fun _ looked => ⟨uncached _ looked.onlyCache, looked⟩

/-- A lookup finds the entry of the name. -/
theorem lookup (filename : CString) :
    Finds start
      (fun found =>
        found =
          (plainScan start.ns.files filename).bind fun index =>
            start.ns.files[index]?.map fun file => (index, file))
      (lookupMetadata filename : NsHandler World _) := by
  intro state looked
  have sameFiles := looked.onlyCache.files
  have found := looked.coherent.fileLookupLocked_eq filename
  have after := looked.coherent.fileLookupLocked filename
  have only := onlyCacheChanged_fileLookupLocked filename state.ns
  rw [sameFiles] at found
  have later :
      Looked start
        { state with ns := (fileLookupLocked filename state.ns).2 } :=
    ⟨after, looked.onlyCache.trans only, looked.sameWorld⟩
  have afterFiles :
      (fileLookupLocked filename state.ns).2.files = start.ns.files :=
    later.onlyCache.files
  simp only [lookupMetadata, onNs, readNs, bind_apply, modifyGet_apply, found]
  cases plainScan start.ns.files filename with
  | none =>
      exact ⟨rfl, later⟩
  | some index =>
      simp only [bind_apply, get_apply, pure_apply]
      exact ⟨by simp [afterFiles], later⟩

/-- Weaken what is found. -/
theorem mono
    {found fact : α → Prop}
    {program : NsHandler World α}
    (finds : Finds start found program)
    (weakens : ∀ value, found value → fact value) :
    Finds start fact program :=
  Triple.mono finds (fun _ => id)
    (fun value _ holds => ⟨weakens value holds.1, holds.2⟩) fun _ => id

theorem and
    {first second : α → Prop}
    {program : NsHandler World α}
    (finds : Finds start first program)
    (alsoFinds : Finds start second program) :
    Finds start (fun value => first value ∧ second value) program := by
  intro state looked
  have found := finds state looked
  have alsoFound := alsoFinds state looked
  cases outcome : program state with
  | ok value final =>
      rw [outcome] at found alsoFound
      exact ⟨⟨found.1, alsoFound.1⟩, found.2⟩
  | error error final =>
      rw [outcome] at found
      exact found

/-- The entry a lookup finds. -/
theorem lookup_entry (filename : CString) :
    Finds start
      (fun found =>
        ∀ index file, found = some (index, file) →
          plainScan start.ns.files filename = some index ∧
            start.ns.files[index]? = some file ∧ file.filename = filename)
      (lookupMetadata filename : NsHandler World _) := by
  refine (lookup filename).mono fun found isFound index file isEntry => ?_
  rw [isEntry, eq_comm, Option.bind_eq_some_iff] at isFound
  obtain ⟨position, scanned, held⟩ := isFound
  simp only [Option.map_eq_some_iff, Prod.mk.injEq] at held
  obtain ⟨entry, held, rfl, rfl⟩ := held
  obtain ⟨other, otherHeld, named⟩ := plainScan_some scanned
  rw [held] at otherHeld
  obtain rfl := Option.some.inj otherHeld
  exact ⟨scanned, held, named⟩

/-- A lookup that finds nothing: there is no entry of the name. -/
theorem lookup_absent (filename : CString) :
    Finds start
      (fun found => found = none → plainScan start.ns.files filename = none)
      (lookupMetadata filename : NsHandler World _) := by
  refine (lookup filename).mono fun found isFound absent => ?_
  rw [absent, eq_comm] at isFound
  cases scanned : plainScan start.ns.files filename with
  | none =>
      rfl
  | some index =>
      obtain ⟨file, held, _⟩ := plainScan_some scanned
      simp [scanned, held] at isFound

end Finds

theorem completes_lookupMetadata (filename : CString) :
    Completes (lookupMetadata filename : NsHandler World _) := by
  refine .bind (.modifyGet _) fun found => ?_
  cases found with
  | none => exact .pure _
  | some index => exact .bind .get fun state => .pure _

/-- A lookup, run. -/
theorem lookupMetadata_apply
    {start : NsState World}
    (coherent : Coherent start.ns)
    (filename : CString) :
    ∃ looked,
      Looked start looked ∧
        lookupMetadata filename start =
          .ok
            ((plainScan start.ns.files filename).bind fun index =>
              start.ns.files[index]?.map fun file => (index, file))
            looked := by
  have found := Finds.lookup filename start (Looked.refl coherent)
  obtain ⟨value, looked, ran⟩ := completes_lookupMetadata filename start
  rw [ran] at found
  exact ⟨looked, found.2, by rw [ran, found.1]⟩

/-- A lookup of an entry, run. -/
theorem lookupMetadata_of_mem
    {start : NsState World}
    (coherent : Coherent start.ns)
    {file : FileMetadata}
    (present : file ∈ start.ns.files) :
    ∃ index looked,
      Looked start looked ∧
        lookupMetadata file.filename start =
          .ok (some (index, file)) looked := by
  obtain ⟨index, held⟩ := List.getElem?_of_mem present
  have scanned : plainScan start.ns.files file.filename = some index :=
    (plainScan_eq_some_iff coherent.names_nodup).mpr ⟨file, held, rfl⟩
  obtain ⟨looked, known, ran⟩ := lookupMetadata_apply coherent file.filename
  rw [scanned, Option.bind_some, held, Option.map_some] at ran
  exact ⟨index, looked, known, ran⟩

end Looking

/-! ## The plan of `MOVE` -/

/-- What the plan of `MOVE` says about one entry. -/
structure PlannedMove
    (ns : NameServer)
    (username srcPath finalRoot : CString)
    (file : FileMetadata)
    (entry : MovePlanEntry) : Prop where
  owned : strncmpEq file.owner username maxUsernameLength = true
  oldPath : entry.oldPath = file.filename
  newPath : movedPath srcPath finalRoot file.filename = some entry.newPath
  valid : nsValidateLogicalPath entry.newPath = true
  notTaken :
    ∀ other ∈ ns.files, other.filename = entry.newPath →
      other.filename = file.filename
  isDirectory : entry.isDirectory = file.isDirectory
  folder : file.isDirectory = true → entry.ss = none
  home :
    file.isDirectory = false →
      ∃ ss, homeOf file ns = some ss ∧ entry.ss = some ss.address
  flat :
    file.isDirectory = false →
      flattenLogicalPath file.filename maxFilenameLength =
          some entry.oldFlat ∧
        flattenLogicalPath entry.newPath maxFilenameLength =
          some entry.newFlat

/-- What a plan of `MOVE` says. -/
structure PlannedMoves
    (ns : NameServer)
    (username srcPath destination : CString)
    (source : FileMetadata)
    (baseName finalRoot : CString)
    (plan : List MovePlanEntry) : Prop where
  present : source ∈ ns.files
  named : source.filename = srcPath
  intoFolder :
    destination ≠ [] →
      ∃ folder ∈ ns.files,
        folder.filename = destination ∧ folder.isDirectory = true
  baseName_eq :
    ∃ parent, nsSplitParentChild srcPath = some (parent, baseName)
  finalRoot_eq : finalRootPath destination baseName = some finalRoot
  different : finalRoot ≠ srcPath
  notInside :
    source.isDirectory = true → destination ≠ [] →
      nsIsDescendantPath destination srcPath = false
  entries :
    List.Forall₂ (PlannedMove ns username srcPath finalRoot)
      (ns.files.filter fun file =>
        takenAlong srcPath source.isDirectory file.filename)
      plan

theorem homeOf_some
    {ns : NameServer}
    {file : FileMetadata}
    {ss : StorageServerInfo}
    (isHome : homeOf file ns = some ss) :
    ss ∈ ns.storageServers ∧
      ss.isAlive = true ∧
        strncmpEq file.ssIp ss.clientIp maxIpLength = true ∧
          file.ssPort = ss.clientPort := by
  have accepted := List.find?_some isHome
  simp only [Bool.and_eq_true, decide_eq_true_eq] at accepted
  obtain ⟨⟨isAlive, _⟩, sameIp, samePort⟩ := accepted
  refine ⟨List.mem_of_find?_eq_some isHome, isAlive, ?_, samePort.symm⟩
  simp only [strncmpEq, beq_iff_eq] at sameIp ⊢
  exact sameIp.symm

theorem storageServers_select (ns : NameServer) :
    (nsSelectStorageServerBalanced ns).2.storageServers =
      ns.storageServers.map clampLoads := by
  unfold nsSelectStorageServerBalanced
  simp only
  split <;> rfl

/-- `ns_select_storage_server_balanced` chooses a connected server. -/
theorem mem_of_lightestOf
    {servers : List StorageServerInfo}
    {chosen : Nat × StorageServerInfo}
    (places : List Nat)
    {best : Option (Nat × StorageServerInfo)}
    (soFar :
      ∀ candidate, best = some candidate →
        candidate.2 ∈ servers ∧ candidate.2.isAlive = true)
    (lightest : lightestOf servers best places = some chosen) :
    chosen.2 ∈ servers ∧ chosen.2.isAlive = true := by
  induction places generalizing best with
  | nil =>
      exact soFar chosen lightest
  | cons place rest inductionHypothesis =>
      unfold lightestOf at lightest
      split at lightest
      · next candidate held =>
        split at lightest
        · next better =>
          simp only [Bool.and_eq_true] at better
          refine inductionHypothesis ?_ lightest
          rintro _ ⟨⟩
          exact ⟨List.mem_of_getElem? held, better.1⟩
        · exact inductionHypothesis soFar lightest
      · exact inductionHypothesis soFar lightest

theorem mem_of_selected
    {ns : NameServer}
    {target : StorageServerInfo}
    (selected : (nsSelectStorageServerBalanced ns).1 = some target) :
    target ∈ (nsSelectStorageServerBalanced ns).2.storageServers ∧
      target.isAlive = true := by
  unfold nsSelectStorageServerBalanced at selected ⊢
  simp only at selected ⊢
  split at selected
  · next place best lightest =>
    obtain rfl := Option.some.inj selected
    exact mem_of_lightestOf _ (by rintro _ ⟨⟩) lightest
  · cases selected

section PlanningMove

variable
  {World : Type}
  {start : NsState World}
  {username srcPath finalRoot : CString}

theorem homeOf_onlyCacheChanged
    {before after : NameServer}
    (only : OnlyCacheChanged before after)
    (file : FileMetadata) :
    homeOf file after = homeOf file before := by
  unfold OnlyCacheChanged at only
  rw [only]
  rfl

/-- The plan entry of one file, once its new path has been settled. -/
theorem finds_planRename
    (file : FileMetadata)
    (newPath : CString)
    (owned : strncmpEq file.owner username maxUsernameLength = true)
    (moved : movedPath srcPath finalRoot file.filename = some newPath)
    (valid : nsValidateLogicalPath newPath = true)
    (notTaken :
      ∀ other ∈ start.ns.files, other.filename = newPath →
        other.filename = file.filename) :
    Finds start (PlannedMove start.ns username srcPath finalRoot file)
      (planRename file newPath) := by
  unfold planRename
  split
  · next folder =>
    exact Finds.pure
      { owned := owned
        oldPath := rfl
        newPath := moved
        valid := valid
        notTaken := notTaken
        isDirectory := folder.symm
        folder := fun _ => rfl
        home := by simp [folder]
        flat := by simp [folder] }
  · next notFolder =>
    refine Finds.bind
      (Finds.read fun state only => homeOf_onlyCacheChanged only file)
      fun home isHome => ?_
    cases home with
    | none =>
        exact Finds.refuse _ _
    | some ss =>
        simp only
        split
        · next oldFlat oldFlattened =>
          split
          · next newFlat newFlattened =>
            exact Finds.pure
              { owned := owned
                oldPath := rfl
                newPath := moved
                valid := valid
                notTaken := notTaken
                isDirectory := by simp [notFolder]
                folder := fun folder => absurd folder notFolder
                home := fun _ => ⟨ss, isHome.symm, rfl⟩
                flat := fun _ => ⟨oldFlattened, newFlattened⟩ }
          · exact Finds.refuse _ _
        · exact Finds.refuse _ _

theorem finds_planMoveEntry (file : FileMetadata) :
    Finds start (PlannedMove start.ns username srcPath finalRoot file)
      (planMoveEntry username srcPath finalRoot file) := by
  unfold planMoveEntry
  refine Finds.bind Finds.ensure fun _ owned => ?_
  split
  · next newPath moved =>
    refine Finds.bind Finds.ensure fun _ valid => ?_
    refine Finds.bind
      ((Finds.lookup_entry newPath).and (Finds.lookup_absent newPath))
      fun collision found => ?_
    refine Finds.bind Finds.ensure fun _ allowed => ?_
    refine finds_planRename file newPath owned moved valid ?_
    intro other present taken
    cases collision with
    | none =>
        have absent := found.2 rfl
        exact absurd taken (plainScan_eq_none_iff.mp absent other present)
    | some entry =>
        obtain ⟨_, _, named⟩ := found.1 entry.1 entry.2 rfl
        rw [taken, ← named]
        simpa using allowed
  · exact Finds.refuse _ _

theorem finds_planMoveEntries (files : List FileMetadata) :
    Finds start
      (List.Forall₂ (PlannedMove start.ns username srcPath finalRoot) files)
      (planMoveEntries username srcPath finalRoot files) := by
  induction files with
  | nil =>
      exact Finds.pure .nil
  | cons file rest inductionHypothesis =>
      unfold planMoveEntries
      refine Finds.bind (finds_planMoveEntry file) fun entry planned => ?_
      refine Finds.bind inductionHypothesis fun entries later => ?_
      exact Finds.pure (.cons planned later)

/-- `ensureFolder` returns only if there is such a folder. -/
theorem finds_ensureFolder
    (folder : CString)
    (missing notFolder : String) :
    Finds start
      (fun _ =>
        ∃ file ∈ start.ns.files,
          file.filename = folder ∧ file.isDirectory = true)
      (ensureFolder folder missing notFolder) := by
  unfold ensureFolder
  refine Finds.bind (Finds.lookup_entry folder) fun found isFound => ?_
  split
  · next index file =>
    refine Finds.ensure.mono fun _ isFolder => ?_
    obtain ⟨_, held, named⟩ := isFound index file rfl
    exact ⟨file, List.mem_of_getElem? held, named, isFolder⟩
  · exact Finds.refuse _ _

/-- The planning of `MOVE` finds out what its plan says. -/
theorem finds_planMove (destination : CString) :
    Finds start
      (fun plan =>
        plan ≠ [] ∧
          ∃ source baseName finalRoot,
            PlannedMoves start.ns username srcPath destination source
              baseName finalRoot plan)
      (planMove username srcPath destination) := by
  unfold planMove
  refine Finds.bind (Finds.lookup_entry srcPath) fun found isFound => ?_
  split
  · next index source =>
    obtain ⟨_, held, named⟩ := isFound index source rfl
    refine Finds.bind Finds.ensure fun _ owned => ?_
    split
    · next parentPath baseName isSplit =>
      refine Finds.optional
        (p :=
          destination ≠ [] →
            ∃ folder ∈ start.ns.files,
              folder.filename = destination ∧ folder.isDirectory = true)
        (fun _ => (finds_ensureFolder _ _ _).mono fun _ found _ => found)
        (fun atRoot notRoot => absurd notRoot atRoot)
        fun intoFolder => ?_
      simp only
      split
      · next finalRoot isRoot =>
        refine Finds.bind Finds.ensure fun _ different => ?_
        refine Finds.bind Finds.ensure fun _ notInside => ?_
        refine Finds.bind
          (Finds.read fun state only => by rw [only.files])
          fun taken isTaken => ?_
        refine Finds.bind (finds_planMoveEntries taken) fun plan planned => ?_
        refine Finds.bind Finds.ensure fun _ nonempty => ?_
        refine Finds.pure ⟨by simpa using nonempty, source, baseName,
          finalRoot, ?_⟩
        exact
          { present := List.mem_of_getElem? held
            named := named
            intoFolder := intoFolder
            baseName_eq := ⟨parentPath, isSplit⟩
            finalRoot_eq := isRoot
            different := by simpa using different
            notInside := fun folder notRoot => by
              simpa [folder, notRoot] using notInside
            entries := isTaken ▸ planned }
      · exact Finds.refuse _ _
    · exact Finds.optional (p := True)
        (fun _ => (finds_ensureFolder _ _ _).mono fun _ _ => trivial)
        (fun _ => trivial) fun _ => Finds.refuse _ _
  · exact Finds.refuse _ _

end PlanningMove

/-! ## The new paths -/

section NewPaths

variable {srcPath finalRoot name newPath : CString}

/-- What is taken along is the path itself or something below it. -/
theorem takenAlong_iff
    {isDirectory : Bool} :
    takenAlong srcPath isDirectory name = true ↔
      name = srcPath ∨
        isDirectory = true ∧
          ∃ rest, name = srcPath ++ CChar.ofChar '/' :: rest := by
  have below :
      isBelow srcPath name = true ↔
        ∃ rest, name = srcPath ++ CChar.ofChar '/' :: rest := by
    simp only [isBelow, Bool.and_eq_true, decide_eq_true_eq]
    constructor
    · rintro ⟨before, after⟩
      obtain ⟨rest, dropped⟩ := List.head?_eq_some_iff.mp after
      refine ⟨rest, ?_⟩
      calc name = name.take srcPath.length ++ name.drop srcPath.length :=
            (List.take_append_drop _ _).symm
        _ = srcPath ++ CChar.ofChar '/' :: rest := by rw [before, dropped]
    · rintro ⟨rest, rfl⟩
      simp
  simp [takenAlong, below]

/-- The new path replaces the source by the new root. -/
theorem movedPath_eq_some
    {isDirectory : Bool}
    (rootShort : finalRoot.length < maxFilenameLength)
    (taken : takenAlong srcPath isDirectory name = true)
    (moved : movedPath srcPath finalRoot name = some newPath) :
    newPath.length < maxFilenameLength ∧
      ∃ rest, name = srcPath ++ rest ∧ newPath = finalRoot ++ rest := by
  unfold movedPath at moved
  split at moved
  · next same =>
    obtain rfl := Option.some.inj moved
    rw [safeStrcpy_of_short rootShort]
    exact ⟨rootShort, [], by simp [same]⟩
  · next different =>
    simp only at moved
    split at moved
    · cases moved
    · next short =>
      obtain rfl := Option.some.inj moved
      refine ⟨not_le.mp short, ?_⟩
      rcases takenAlong_iff.mp taken with same | ⟨_, rest, rfl⟩
      · exact absurd same different
      · exact ⟨_, rfl, by simp⟩

theorem length_finalRootPath
    {destination baseName : CString}
    (isRoot : finalRootPath destination baseName = some finalRoot) :
    finalRoot.length < maxFilenameLength := by
  unfold finalRootPath at isRoot
  split at isRoot
  · obtain rfl := Option.some.inj isRoot
    exact length_safeStrcpy_lt _ (by decide)
  · simp only at isRoot
    split at isRoot
    · cases isRoot
    · next short =>
      obtain rfl := Option.some.inj isRoot
      exact not_le.mp short

end NewPaths

theorem exists_of_forall₂
    {α β : Type*}
    {related : α → β → Prop}
    {first : List α}
    {second : List β}
    (pairs : List.Forall₂ related first second)
    {value : β}
    (member : value ∈ second) :
    ∃ partner ∈ first, related partner value := by
  induction pairs with
  | nil =>
      cases member
  | cons isPair _ inductionHypothesis =>
      rcases List.mem_cons.mp member with rfl | later
      · exact ⟨_, by simp, isPair⟩
      · obtain ⟨partner, held, isPartner⟩ := inductionHypothesis later
        exact ⟨partner, List.mem_cons_of_mem _ held, isPartner⟩

theorem exists_of_forall₂_left
    {α β : Type*}
    {related : α → β → Prop}
    {first : List α}
    {second : List β}
    (pairs : List.Forall₂ related first second)
    {value : α}
    (member : value ∈ first) :
    ∃ partner ∈ second, related value partner :=
  exists_of_forall₂ (List.Forall₂.flip pairs) member

/-- What the application of a plan needs of it. -/
structure RenamesApart
    (names : List CString)
    (plan : List MovePlanEntry) : Prop where
  short : ∀ entry ∈ plan, entry.newPath.length < maxFilenameLength
  fresh : ∀ entry ∈ plan, entry.newPath ∉ names
  apart : (plan.map MovePlanEntry.newPath).Nodup

section Planned

variable
  {ns : NameServer}
  {username srcPath destination : CString}
  {source : FileMetadata}
  {baseName finalRoot : CString}
  {plan : List MovePlanEntry}

variable
  (planned :
    PlannedMoves ns username srcPath destination source baseName finalRoot
      plan)

include planned

theorem PlannedMoves.exists_file
    {entry : MovePlanEntry}
    (member : entry ∈ plan) :
    ∃ file ∈ ns.files,
      takenAlong srcPath source.isDirectory file.filename = true ∧
        PlannedMove ns username srcPath finalRoot file entry := by
  obtain ⟨file, present, plannedEntry⟩ :=
    exists_of_forall₂ planned.entries member
  rw [List.mem_filter] at present
  exact ⟨file, present.1, present.2, plannedEntry⟩

/-- Old and new path of a plan entry differ in the source and the root only. -/
theorem PlannedMoves.paths
    {entry : MovePlanEntry}
    (member : entry ∈ plan) :
    entry.newPath.length < maxFilenameLength ∧
      ∃ rest,
        entry.oldPath = srcPath ++ rest ∧
          entry.newPath = finalRoot ++ rest := by
  obtain ⟨file, _, taken, plannedEntry⟩ := planned.exists_file member
  rw [plannedEntry.oldPath]
  exact movedPath_eq_some (length_finalRootPath planned.finalRoot_eq) taken
    plannedEntry.newPath

/-- The old paths are the names of the entries taken along. -/
theorem PlannedMoves.oldPaths :
    plan.map MovePlanEntry.oldPath =
      (ns.files.filter fun file =>
        takenAlong srcPath source.isDirectory file.filename).map
          FileMetadata.filename := by
  rw [← List.forall₂_eq_eq_eq, List.forall₂_map_left_iff,
    List.forall₂_map_right_iff]
  exact (planned.entries.imp fun file entry plannedEntry =>
    plannedEntry.oldPath).flip

/-- No entry has a new path for its name. -/
theorem PlannedMoves.fresh
    {entry : MovePlanEntry}
    (member : entry ∈ plan) :
    entry.newPath ∉ ns.files.map FileMetadata.filename := by
  intro taken
  obtain ⟨other, present, named⟩ := List.mem_map.mp taken
  obtain ⟨file, _, _, plannedEntry⟩ := planned.exists_file member
  obtain ⟨_, rest, isOld, isNew⟩ := planned.paths member
  have same :=
    plannedEntry.notTaken other present named
  rw [named, ← plannedEntry.oldPath, isOld, isNew] at same
  exact planned.different (List.append_cancel_right same)

/-- The new paths are short, free and different from each other. -/
theorem PlannedMoves.renamesApart
    (namesNodup : (ns.files.map FileMetadata.filename).Nodup) :
    RenamesApart (ns.files.map FileMetadata.filename) plan where
  short _ member := (planned.paths member).1
  fresh _ member := planned.fresh member
  apart := by
    have oldApart : (plan.map MovePlanEntry.oldPath).Nodup := by
      rw [planned.oldPaths]
      exact namesNodup.sublist (List.filter_sublist.map _)
    rw [List.Nodup, List.pairwise_map] at oldApart ⊢
    refine oldApart.imp_of_mem fun firstHeld secondHeld different same => ?_
    obtain ⟨_, rest, isOld, isNew⟩ := planned.paths firstHeld
    obtain ⟨_, otherRest, otherOld, otherNew⟩ := planned.paths secondHeld
    rw [isNew, otherNew] at same
    apply different
    rw [isOld, otherOld, List.append_cancel_left same]

end Planned

/-! ## Applying the plan of `MOVE` -/

section Applying

variable
  {now : Int}
  {username : CString}
  {ns : NameServer}

theorem applyMoveEntry_eq
    (coherent : Coherent ns)
    (entry : MovePlanEntry) :
    applyMoveEntry now username ns entry =
      match plainScan ns.files entry.oldPath with
      | none => (fileLookupLocked entry.oldPath ns).2
      | some index =>
          renamedAt now username entry.oldPath entry.newPath index
            (fileLookupLocked entry.oldPath ns).2 := by
  have found := coherent.fileLookupLocked_eq entry.oldPath
  unfold applyMoveEntry
  generalize fileLookupLocked entry.oldPath ns = pair at found
  obtain ⟨index, looked⟩ := pair
  obtain rfl := found
  cases plainScan ns.files entry.oldPath <;> rfl

/-- Servers and requests are as before: `MOVE` changes the entries, and how
they are found. -/
theorem applyMove_frame
    (plan : List MovePlanEntry)
    (ns : NameServer) :
    ∃ files fileIndex fileCache cacheTick,
      applyMove now username plan ns =
        { ns with
          files := files
          fileIndex := fileIndex
          fileCache := fileCache
          cacheTick := cacheTick } := by
  induction plan generalizing ns with
  | nil =>
      exact ⟨_, _, _, _, rfl⟩
  | cons entry rest inductionHypothesis =>
      have step :
          ∃ files fileIndex fileCache cacheTick,
            applyMoveEntry now username ns entry =
              { ns with
                files := files
                fileIndex := fileIndex
                fileCache := fileCache
                cacheTick := cacheTick } := by
        have looked := onlyCacheChanged_fileLookupLocked entry.oldPath ns
        unfold OnlyCacheChanged at looked
        unfold applyMoveEntry
        generalize fileLookupLocked entry.oldPath ns = pair at looked
        obtain ⟨found, after⟩ := pair
        cases found with
        | none => exact ⟨_, _, _, _, looked⟩
        | some index =>
            simp only at looked ⊢
            rw [looked]
            exact ⟨_, _, _, _, rfl⟩
      obtain ⟨_, _, _, _, stepped⟩ := step
      obtain ⟨_, _, _, _, moved⟩ :=
        inductionHypothesis (applyMoveEntry now username ns entry)
      rw [stepped] at moved
      exact ⟨_, _, _, _, (congrArg _ stepped).trans moved⟩

/-- An entry after one step of the application. -/
def renamedEntry
    (now : Int)
    (username : CString)
    (file : FileMetadata)
    (entry : MovePlanEntry) : FileMetadata :=
  if file.filename = entry.oldPath then
    renamedMetadata now username entry.newPath file
  else
    file

theorem files_applyMoveEntry
    (coherent : Coherent ns)
    (entry : MovePlanEntry) :
    (applyMoveEntry now username ns entry).files =
      ns.files.map fun file => renamedEntry now username file entry := by
  have sameFiles :=
    (onlyCacheChanged_fileLookupLocked entry.oldPath ns).files
  rw [applyMoveEntry_eq coherent]
  cases scanned : plainScan ns.files entry.oldPath with
  | none =>
      rw [plainScan_eq_none_iff] at scanned
      have unchanged :
          ns.files.map (fun file => renamedEntry now username file entry) =
            ns.files.map id :=
        List.map_congr_left fun file present =>
          if_neg (scanned file present)
      rw [unchanged, List.map_id]
      exact sameFiles
  | some index =>
      have changed :=
        modify_eq_map coherent.names_nodup scanned
          (renamedMetadata now username entry.newPath)
      rw [← sameFiles] at changed
      rw [← sameFiles]
      exact changed

variable (now username) in
/-- One step keeps the registry coherent and what the others need. -/
theorem RenamesApart.applyMoveEntry
    {entry : MovePlanEntry}
    {rest : List MovePlanEntry}
    (apart :
      RenamesApart (ns.files.map FileMetadata.filename) (entry :: rest))
    (coherent : Coherent ns) :
    Coherent (DistributedDocs.applyMoveEntry now username ns entry) ∧
      RenamesApart
        ((DistributedDocs.applyMoveEntry now username ns entry).files.map
          FileMetadata.filename)
        rest := by
  have short := apart.short entry (by simp)
  have fresh := apart.fresh entry (by simp)
  have notLater := apart.apart
  rw [List.map_cons, List.nodup_cons] at notLater
  constructor
  · rw [applyMoveEntry_eq coherent]
    have only := onlyCacheChanged_fileLookupLocked entry.oldPath ns
    have looked := coherent.fileLookupLocked entry.oldPath
    split
    · exact looked
    · next index found =>
      rw [← only.files] at found fresh
      refine looked.renamedAt found ?_ short
      rw [plainScan_eq_none_iff]
      exact fun file present named =>
        fresh (List.mem_map.mpr ⟨file, present, named⟩)
  · rw [files_applyMoveEntry coherent]
    refine ⟨fun later member => apart.short later (by simp [member]),
      fun later member => ?_, notLater.2⟩
    have freshLater := apart.fresh later (by simp [member])
    simp only [List.mem_map, not_exists, not_and]
    rintro _ ⟨file, present, rfl⟩ named
    unfold renamedEntry at named
    split at named
    · have isNew :
          (renamedMetadata now username entry.newPath file).filename =
            entry.newPath :=
        safeStrcpy_of_short short
      apply notLater.1
      rw [← isNew, named]
      exact List.mem_map_of_mem member
    · apply freshLater
      rw [← named]
      exact List.mem_map_of_mem present

variable (now username) in
/-- Applying a plan keeps the registry coherent. -/
theorem Coherent.applyMove
    {plan : List MovePlanEntry}
    (coherent : Coherent ns)
    (apart : RenamesApart (ns.files.map FileMetadata.filename) plan) :
    Coherent (DistributedDocs.applyMove now username plan ns) ∧
      (DistributedDocs.applyMove now username plan ns).files =
        ns.files.map fun file =>
          plan.foldl (renamedEntry now username) file := by
  induction plan generalizing ns with
  | nil =>
      exact ⟨coherent, by simp [DistributedDocs.applyMove]⟩
  | cons entry rest inductionHypothesis =>
      obtain ⟨stepCoherent, stepApart⟩ :=
        apart.applyMoveEntry now username coherent
      obtain ⟨finalCoherent, finalFiles⟩ :=
        inductionHypothesis stepCoherent stepApart
      refine ⟨finalCoherent, ?_⟩
      rw [files_applyMoveEntry coherent, List.map_map] at finalFiles
      exact finalFiles

theorem foldl_renamedEntry_of_ne
    {plan : List MovePlanEntry}
    {file : FileMetadata}
    (untouched : ∀ entry ∈ plan, file.filename ≠ entry.oldPath) :
    plan.foldl (renamedEntry now username) file = file := by
  induction plan with
  | nil =>
      rfl
  | cons entry rest inductionHypothesis =>
      have notThis : renamedEntry now username file entry = file :=
        if_neg (untouched entry (by simp))
      rw [List.foldl_cons, notThis]
      exact inductionHypothesis fun later member =>
        untouched later (by simp [member])

/-- The steps together rename an entry once or not at all. -/
theorem foldl_renamedEntry
    {names : List CString}
    {plan : List MovePlanEntry}
    (apart : RenamesApart names plan)
    (olds : ∀ entry ∈ plan, entry.oldPath ∈ names)
    (file : FileMetadata) :
    plan.foldl (renamedEntry now username) file =
      match plan.find? fun entry => entry.oldPath = file.filename with
      | some entry => renamedMetadata now username entry.newPath file
      | none => file := by
  cases found : plan.find? fun entry => entry.oldPath = file.filename with
  | none =>
      rw [List.find?_eq_none] at found
      exact foldl_renamedEntry_of_ne fun entry member same =>
        found entry member (by simpa using same.symm)
  | some entry =>
      obtain ⟨named, before, rest, rfl, notBefore⟩ :=
        List.find?_eq_some_iff_append.mp found
      have isNew :
          (renamedMetadata now username entry.newPath file).filename =
            entry.newPath :=
        safeStrcpy_of_short (apart.short entry (by simp))
      have unmoved :
          before.foldl (renamedEntry now username) file = file :=
        foldl_renamedEntry_of_ne fun earlier member same => by
          have refused := notBefore earlier member
          simp [same] at refused
      rw [List.foldl_append, unmoved, List.foldl_cons]
      have renamed :
          renamedEntry now username file entry =
            renamedMetadata now username entry.newPath file :=
        if_pos (by simpa using (of_decide_eq_true named).symm)
      rw [renamed]
      refine foldl_renamedEntry_of_ne fun later member same => ?_
      rw [isNew] at same
      apply apart.fresh entry (by simp)
      rw [same]
      exact olds later (by simp [member])

end Applying

/-- The old paths of a plan are names of entries. -/
theorem PlannedMoves.oldPath_mem
    {ns : NameServer}
    {username srcPath destination : CString}
    {source : FileMetadata}
    {baseName finalRoot : CString}
    {plan : List MovePlanEntry}
    (planned :
      PlannedMoves ns username srcPath destination source baseName finalRoot
        plan)
    {entry : MovePlanEntry}
    (member : entry ∈ plan) :
    entry.oldPath ∈ ns.files.map FileMetadata.filename := by
  obtain ⟨file, present, _, plannedEntry⟩ := planned.exists_file member
  rw [plannedEntry.oldPath]
  exact List.mem_map_of_mem present

/-! ## The plan of `DELETE` -/

/-- What the plan of `DELETE` says about one entry. -/
structure PlannedDelete
    (ns : NameServer)
    (username : CString)
    (file : FileMetadata)
    (entry : DeletePlanEntry) : Prop where
  owned : strncmpEq file.owner username maxUsernameLength = true
  path : entry.path = file.filename
  isDirectory : entry.isDirectory = file.isDirectory
  size : entry.size = max 0 file.size
  folder : file.isDirectory = true → entry.ss = none
  home :
    file.isDirectory = false →
      ∃ ss, homeOf file ns = some ss ∧ entry.ss = some ss.address

/-- What a plan of `DELETE` says. -/
structure PlannedDeletes
    (ns : NameServer)
    (username targetPath : CString)
    (target : FileMetadata)
    (plan : List DeletePlanEntry) : Prop where
  present : target ∈ ns.files
  named : target.filename = targetPath
  entries :
    List.Forall₂ (PlannedDelete ns username)
      (ns.files.filter fun file =>
        takenAlong targetPath target.isDirectory file.filename)
      plan

section PlanningDelete

variable
  {World : Type}
  {start : NsState World}
  {username : CString}

theorem finds_planDeleteEntry (file : FileMetadata) :
    Finds start (PlannedDelete start.ns username file)
      (planDeleteEntry username file) := by
  unfold planDeleteEntry
  refine Finds.bind Finds.ensure fun _ owned => ?_
  split
  · next folder =>
    exact Finds.pure
      ⟨owned, rfl, folder.symm, rfl, fun _ => rfl, by simp [folder]⟩
  · next notFolder =>
    refine Finds.bind
      (Finds.read fun state only => homeOf_onlyCacheChanged only file)
      fun home isHome => ?_
    split
    · next ss =>
      exact Finds.pure
        ⟨owned, rfl, by simp [notFolder], rfl,
          fun folder => absurd folder notFolder,
          fun _ => ⟨ss, isHome.symm, rfl⟩⟩
    · exact Finds.refuse _ _

theorem finds_planDeleteEntries (files : List FileMetadata) :
    Finds start
      (List.Forall₂ (PlannedDelete start.ns username) files)
      (planDeleteEntries username files) := by
  induction files with
  | nil =>
      exact Finds.pure .nil
  | cons file rest inductionHypothesis =>
      unfold planDeleteEntries
      refine Finds.bind (finds_planDeleteEntry file) fun entry planned => ?_
      refine Finds.bind inductionHypothesis fun entries later => ?_
      exact Finds.pure (.cons planned later)

/-- The planning of `DELETE` finds out what its plan says. -/
theorem finds_planDelete (targetPath : CString) :
    Finds start
      (fun plan =>
        ∃ target,
          PlannedDeletes start.ns username targetPath target plan)
      (planDelete username targetPath) := by
  unfold planDelete
  refine Finds.bind (Finds.lookup_entry targetPath) fun found isFound => ?_
  split
  · next index target =>
    obtain ⟨_, held, named⟩ := isFound index target rfl
    refine Finds.bind Finds.ensure fun _ owned => ?_
    refine Finds.bind
      (Finds.read fun state only => by rw [only.files])
      fun taken isTaken => ?_
    refine Finds.bind (finds_planDeleteEntries taken) fun plan planned => ?_
    refine Finds.bind Finds.ensure fun _ _ => ?_
    exact Finds.pure
      ⟨target, List.mem_of_getElem? held, named, isTaken ▸ planned⟩
  · exact Finds.refuse _ _

end PlanningDelete

/-- The paths are the names of the entries taken along. -/
theorem PlannedDeletes.paths
    {ns : NameServer}
    {username targetPath : CString}
    {target : FileMetadata}
    {plan : List DeletePlanEntry}
    (planned : PlannedDeletes ns username targetPath target plan) :
    plan.map DeletePlanEntry.path =
      (ns.files.filter fun file =>
        takenAlong targetPath target.isDirectory file.filename).map
          FileMetadata.filename := by
  rw [← List.forall₂_eq_eq_eq, List.forall₂_map_left_iff,
    List.forall₂_map_right_iff]
  exact (planned.entries.imp fun file entry plannedEntry =>
    plannedEntry.path).flip

/-! ## Applying the plan of `DELETE` -/

/-- A coherent registry all of whose entries have a name. -/
structure Registry (ns : NameServer) : Prop where
  coherent : Coherent ns
  named : ∀ file ∈ ns.files, file.filename ≠ []

section Deleting

variable {ns : NameServer}

/-- The table after a removal holds the entries of other names. -/
theorem mem_files_removeFileMetadataLocked
    (coherent : Coherent ns)
    (filename : CString)
    (file : FileMetadata) :
    file ∈ (removeFileMetadataLocked filename ns).2.files ↔
      file ∈ ns.files ∧ file.filename ≠ filename := by
  rw [coherent.removeFileMetadataLocked_eq]
  split
  · next hole last found isLast =>
    have remaining := filledHole_perm isLast (lt_of_plainScan found)
    obtain ⟨removed, removedHeld, removedName⟩ := plainScan_some found
    change file ∈ filledHole ns.files hole last ↔ _
    rw [remaining.mem_iff, List.mem_eraseIdx_iff_getElem?]
    constructor
    · rintro ⟨position, elsewhere, held⟩
      refine ⟨List.mem_of_getElem? held, fun named => elsewhere ?_⟩
      have foundHere := (plainScan_eq_some_iff coherent.names_nodup).mpr
        ⟨file, held, named⟩
      exact Option.some.inj (foundHere.symm.trans found)
    · rintro ⟨present, different⟩
      obtain ⟨position, held⟩ := List.getElem?_of_mem present
      refine ⟨position, ?_, held⟩
      rintro rfl
      rw [removedHeld] at held
      obtain rfl := Option.some.inj held
      exact different removedName
  · next notBoth =>
    refine ⟨fun present => ⟨present, fun named => ?_⟩, And.left⟩
    cases scanned : plainScan ns.files filename with
    | none =>
        exact plainScan_eq_none_iff.mp scanned file present named
    | some hole =>
        cases isLast : ns.files.getLast? with
        | none =>
            rw [List.getLast?_eq_none_iff] at isLast
            simp [isLast] at present
        | some last =>
            exact notBoth hole last scanned isLast

theorem Registry.removeFileMetadataLocked
    (registry : Registry ns)
    (filename : CString) :
    Registry (DistributedDocs.removeFileMetadataLocked filename ns).2 where
  coherent :=
    registry.coherent.removeFileMetadataLocked registry.named filename
  named file member :=
    registry.named file
      ((mem_files_removeFileMetadataLocked registry.coherent filename
        file).mp member).1

/-- What of the registry is not looked at may change. -/
theorem Registry.of_same
    {after : NameServer}
    (registry : Registry ns)
    (sameFiles : after.files = ns.files)
    (sameIndex : after.fileIndex = ns.fileIndex)
    (sameCache : after.fileCache = ns.fileCache) :
    Registry after where
  coherent := registry.coherent.of_same sameFiles sameIndex sameCache
  named := sameFiles ▸ registry.named

theorem Registry.applyDeleteEntry
    (registry : Registry ns)
    (entry : DeletePlanEntry) :
    Registry (DistributedDocs.applyDeleteEntry ns entry) ∧
      ∀ file,
        file ∈ (DistributedDocs.applyDeleteEntry ns entry).files ↔
          file ∈ ns.files ∧ file.filename ≠ entry.path := by
  have removed := registry.removeFileMetadataLocked entry.path
  have members :=
    mem_files_removeFileMetadataLocked registry.coherent entry.path
  unfold DistributedDocs.applyDeleteEntry
  generalize DistributedDocs.removeFileMetadataLocked entry.path ns = pair
    at removed members
  obtain ⟨found, left⟩ := pair
  cases found with
  | false =>
      exact ⟨removed, members⟩
  | true =>
      cases entry.ss with
      | none =>
          exact ⟨removed.of_same rfl rfl rfl, members⟩
      | some address =>
          exact ⟨removed.of_same rfl rfl rfl, members⟩

/-- Applying a plan of `DELETE` leaves the entries it does not name. -/
theorem Registry.foldl_applyDeleteEntry
    (registry : Registry ns)
    (plan : List DeletePlanEntry) :
    Registry (plan.foldl DistributedDocs.applyDeleteEntry ns) ∧
      ∀ file,
        file ∈ (plan.foldl DistributedDocs.applyDeleteEntry ns).files ↔
          file ∈ ns.files ∧
            ∀ entry ∈ plan, file.filename ≠ entry.path := by
  induction plan generalizing ns with
  | nil =>
      exact ⟨registry, by simp⟩
  | cons entry rest inductionHypothesis =>
      obtain ⟨stepRegistry, stepMembers⟩ := registry.applyDeleteEntry entry
      obtain ⟨finalRegistry, finalMembers⟩ :=
        inductionHypothesis stepRegistry
      refine ⟨finalRegistry, fun file => ?_⟩
      rw [List.foldl_cons, finalMembers, stepMembers, and_assoc]
      simp

theorem Registry.applyDelete
    (registry : Registry ns)
    (plan : List DeletePlanEntry) :
    Registry (DistributedDocs.applyDelete plan ns) ∧
      ∀ file,
        file ∈ (DistributedDocs.applyDelete plan ns).files ↔
          file ∈ ns.files ∧
            ∀ entry ∈ plan, file.filename ≠ entry.path := by
  obtain ⟨finalRegistry, members⟩ :=
    registry.foldl_applyDeleteEntry (removalOrder plan)
  refine ⟨finalRegistry, fun file => (members file).trans ?_⟩
  have sameEntries : ∀ entry, entry ∈ removalOrder plan ↔ entry ∈ plan := by
    intro entry
    rw [removalOrder, List.mem_insertionSort, List.mem_reverse]
  simp only [sameEntries]

end Deleting

end DistributedDocs
