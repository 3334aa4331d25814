import DistributedDocs.AccessRequests
import DistributedDocs.LockstepRules

namespace DistributedDocs

/-!
# Name servers with the same records

The hash index and the lookup cache are there to find entries faster.  Twins
are name servers that have the same records, each with an index and a cache of
its own that agree with them.  The operations on the registry take twins to
twins, and programs made of them cannot tell twins apart.
-/

/-- The same records; the index and the cache may be others. -/
def SameRecords (first second : NameServer) : Prop :=
  ∃ fileIndex fileCache cacheTick,
    second =
      { first with
        fileIndex := fileIndex
        fileCache := fileCache
        cacheTick := cacheTick }

/-- Two name servers that differ in what they look entries up with. -/
structure Twins {World : Type} (first second : NsState World) : Prop where
  records : SameRecords first.ns second.ns
  world : first.world = second.world
  registry : Registry first.ns
  twinRegistry : Registry second.ns

/-! ## Records -/

section Records

variable {first second third : NameServer}

theorem SameRecords.refl (ns : NameServer) : SameRecords ns ns :=
  ⟨_, _, _, rfl⟩

theorem SameRecords.symm
    (same : SameRecords first second) :
    SameRecords second first := by
  obtain ⟨_, _, _, rfl⟩ := same
  exact ⟨_, _, _, rfl⟩

theorem SameRecords.trans
    (earlier : SameRecords first second)
    (later : SameRecords second third) :
    SameRecords first third := by
  obtain ⟨_, _, _, rfl⟩ := earlier
  obtain ⟨_, _, _, rfl⟩ := later
  exact ⟨_, _, _, rfl⟩

theorem OnlyCacheChanged.sameRecords
    (only : OnlyCacheChanged first second) :
    SameRecords first second :=
  ⟨_, _, _, only⟩

theorem SameRecords.files
    (same : SameRecords first second) :
    second.files = first.files := by
  obtain ⟨_, _, _, rfl⟩ := same
  rfl

theorem SameRecords.homeOf
    (same : SameRecords first second)
    (file : FileMetadata) :
    DistributedDocs.homeOf file first = DistributedDocs.homeOf file second := by
  obtain ⟨_, _, _, rfl⟩ := same
  rfl

/-- What a plan says of one of them it says of the other. -/
theorem SameRecords.plannedMoves
    (same : SameRecords first second)
    {username srcPath destination : CString}
    {source : FileMetadata}
    {baseName finalRoot : CString}
    {plan : List MovePlanEntry}
    (planned :
      PlannedMoves first username srcPath destination source baseName
        finalRoot plan) :
    PlannedMoves second username srcPath destination source baseName
      finalRoot plan := by
  obtain ⟨_, _, _, rfl⟩ := same
  exact
    { planned with
      entries := planned.entries.imp fun _ _ plannedEntry =>
        { plannedEntry with } }

/-- What does not look at the index or the cache sees no difference. -/
theorem SameRecords.changed
    {change : NameServer → NameServer}
    (blind :
      ∀ ns fileIndex fileCache cacheTick,
        SameRecords (change ns)
          (change
            { ns with
              fileIndex := fileIndex
              fileCache := fileCache
              cacheTick := cacheTick }))
    (same : SameRecords first second) :
    SameRecords (change first) (change second) := by
  obtain ⟨_, _, _, rfl⟩ := same
  exact blind _ _ _ _

theorem SameRecords.changeFile
    (same : SameRecords first second)
    (index : Nat)
    (change : FileMetadata → FileMetadata) :
    SameRecords (DistributedDocs.changeFile index change first)
      (DistributedDocs.changeFile index change second) :=
  same.changed fun _ _ _ _ => ⟨_, _, _, rfl⟩

theorem SameRecords.changeServer
    (same : SameRecords first second)
    (address : Nat)
    (change : StorageServerInfo → StorageServerInfo) :
    SameRecords (DistributedDocs.changeServer address change first)
      (DistributedDocs.changeServer address change second) :=
  same.changed fun _ _ _ _ => ⟨_, _, _, rfl⟩

theorem SameRecords.changeRequest
    (same : SameRecords first second)
    (position : Nat)
    (change : AccessRequest → AccessRequest) :
    SameRecords (DistributedDocs.changeRequest position change first)
      (DistributedDocs.changeRequest position change second) :=
  same.changed fun _ _ _ _ => ⟨_, _, _, rfl⟩

theorem SameRecords.fileCacheStore
    (same : SameRecords first second)
    (filename : CString)
    (index : Nat) :
    SameRecords (DistributedDocs.fileCacheStore filename index first)
      (DistributedDocs.fileCacheStore filename index second) :=
  ((onlyCacheChanged_fileCacheStore filename index first).sameRecords.symm.trans
    same).trans (onlyCacheChanged_fileCacheStore filename index second).sameRecords

theorem SameRecords.registerFile
    (same : SameRecords first second)
    (filename : CString)
    (file : FileMetadata) :
    SameRecords (DistributedDocs.registerFile filename file first)
      (DistributedDocs.registerFile filename file second) := by
  have length := congrArg List.length same.files
  have entered :
      SameRecords
        { fileIndexInsert filename first.files.length first with
          files := first.files ++ [{ file with document := first.nextDocument }]
          nextDocument := first.nextDocument + 1 }
        { fileIndexInsert filename first.files.length second with
          files := second.files ++ [{ file with document := second.nextDocument }]
          nextDocument := second.nextDocument + 1 } := by
    obtain ⟨_, _, _, rfl⟩ := same
    exact ⟨_, _, _, rfl⟩
  unfold DistributedDocs.registerFile
  simp only [length]
  exact entered.fileCacheStore filename first.files.length

/-- The balanced choice is made by the servers alone. -/
theorem SameRecords.select
    (same : SameRecords first second) :
    (nsSelectStorageServerBalanced first).1 =
        (nsSelectStorageServerBalanced second).1 ∧
      SameRecords (nsSelectStorageServerBalanced first).2
        (nsSelectStorageServerBalanced second).2 := by
  obtain ⟨_, _, _, rfl⟩ := same
  unfold nsSelectStorageServerBalanced
  cases chosen :
      lightestOf (first.storageServers.map clampLoads) none
        ((List.range first.storageServers.length).filterMap
          (roundRobinPlace first.ssRoundRobinIndex
            first.storageServers.length)) with
  | none =>
      simp only [chosen]
      exact ⟨trivial, _, _, _, rfl⟩
  | some best =>
      simp only [chosen]
      exact ⟨trivial, _, _, _, rfl⟩

/-- The entry that is removed is the one the scan finds. -/
theorem SameRecords.removeFileMetadataLocked
    (same : SameRecords first second)
    (coherent : Coherent first)
    (twinCoherent : Coherent second)
    (filename : CString) :
    (DistributedDocs.removeFileMetadataLocked filename first).1 =
        (DistributedDocs.removeFileMetadataLocked filename second).1 ∧
      SameRecords
        (DistributedDocs.removeFileMetadataLocked filename first).2
        (DistributedDocs.removeFileMetadataLocked filename second).2 := by
  rw [coherent.removeFileMetadataLocked_eq,
    twinCoherent.removeFileMetadataLocked_eq, same.files]
  split
  · obtain ⟨_, _, _, rfl⟩ := same
    exact ⟨rfl, _, _, _, rfl⟩
  · exact ⟨rfl, same⟩

theorem SameRecords.applyDeleteEntry
    (same : SameRecords first second)
    (coherent : Coherent first)
    (twinCoherent : Coherent second)
    (entry : DeletePlanEntry) :
    SameRecords (DistributedDocs.applyDeleteEntry first entry)
      (DistributedDocs.applyDeleteEntry second entry) := by
  obtain ⟨sameFound, sameLeft⟩ :=
    same.removeFileMetadataLocked coherent twinCoherent entry.path
  unfold DistributedDocs.applyDeleteEntry
  generalize DistributedDocs.removeFileMetadataLocked entry.path first = pair
    at sameFound sameLeft
  generalize DistributedDocs.removeFileMetadataLocked entry.path second = other
    at sameFound sameLeft
  obtain ⟨found, left⟩ := pair
  obtain ⟨_, otherLeft⟩ := other
  obtain rfl := sameFound
  cases found with
  | false => exact sameLeft
  | true =>
      cases entry.ss with
      | none =>
          obtain ⟨_, _, _, rfl⟩ := sameLeft
          exact ⟨_, _, _, rfl⟩
      | some address =>
          obtain ⟨_, _, _, rfl⟩ := sameLeft
          exact ⟨_, _, _, rfl⟩

theorem SameRecords.applyDelete
    (same : SameRecords first second)
    (registry : Registry first)
    (twinRegistry : Registry second)
    (plan : List DeletePlanEntry) :
    SameRecords (DistributedDocs.applyDelete plan first)
      (DistributedDocs.applyDelete plan second) := by
  rw [DistributedDocs.applyDelete, DistributedDocs.applyDelete]
  induction removalOrder plan generalizing first second with
  | nil =>
      exact same
  | cons entry rest inductionHypothesis =>
      exact inductionHypothesis
        (same.applyDeleteEntry registry.coherent twinRegistry.coherent entry)
        (registry.applyDeleteEntry entry).1
        (twinRegistry.applyDeleteEntry entry).1

/-- Applying a plan renames the same entries. -/
theorem SameRecords.applyMove
    (same : SameRecords first second)
    (coherent : Coherent first)
    (twinCoherent : Coherent second)
    (now : Int)
    (username : CString)
    {plan : List MovePlanEntry}
    (apart : RenamesApart (first.files.map FileMetadata.filename) plan) :
    SameRecords (DistributedDocs.applyMove now username plan first)
      (DistributedDocs.applyMove now username plan second) := by
  have files := (coherent.applyMove now username apart).2
  have twinFiles :=
    (twinCoherent.applyMove now username (same.files.symm ▸ apart)).2
  obtain ⟨_, _, _, _, moved⟩ := applyMove_frame plan first
  obtain ⟨_, _, _, _, twinMoved⟩ := applyMove_frame plan second
  rw [moved] at files ⊢
  rw [twinMoved] at twinFiles ⊢
  simp only at files twinFiles
  subst files twinFiles
  obtain ⟨_, _, _, rfl⟩ := same
  exact ⟨_, _, _, rfl⟩

end Records

/-! ## Programs that see no difference -/

section Programs

variable
  {World α β : Type}
  {start : NsState World}

/-- A program that cannot tell twins apart, and leaves twins. -/
def Alike (program : NsHandler World α) : Prop :=
  Lockstep Twins program program (fun _ => Twins) Twins

/-- The same of states that only lookups separate from `start`. -/
def AlikeFrom (start : NsState World) (program : NsHandler World α) : Prop :=
  Lockstep (fun first second => Twins first second ∧ Looked start first)
    program program (fun _ => Twins) Twins

theorem Twins.coherent
    {first second : NsState World}
    (twins : Twins first second) :
    Coherent first.ns ∧ Coherent second.ns :=
  ⟨twins.registry.coherent, twins.twinRegistry.coherent⟩

/-- The same operation on twins that keeps the records alike. -/
theorem Twins.onRegistry
    {first second : NsState World}
    (twins : Twins first second)
    {change : NameServer → NameServer}
    (same : SameRecords (change first.ns) (change second.ns))
    (keeps : Registry (change first.ns))
    (twinKeeps : Registry (change second.ns)) :
    Twins (first.onRegistry change) (second.onRegistry change) :=
  ⟨same, twins.world, keeps, twinKeeps⟩

namespace Alike

theorem pure (value : α) :
    Alike (Pure.pure value : NsHandler World α) :=
  Lockstep.pure fun _ _ twins => twins

theorem throw (refusal : Refusal) :
    Alike (MonadExcept.throw refusal : NsHandler World α) :=
  Lockstep.throw fun _ _ twins => twins

theorem refuse
    (code : Int)
    (text : String) :
    Alike (nsRefuse code text : NsHandler World α) :=
  Alike.throw _

theorem bind
    {program : NsHandler World α}
    {next : α → NsHandler World β}
    (first : Alike program)
    (second : ∀ value, Alike (next value)) :
    Alike (program >>= next) :=
  Lockstep.bind first second

theorem ensure
    {condition : Bool}
    {code : Int}
    {text : String} :
    Alike (nsEnsure condition code text : NsHandler World Unit) := by
  unfold nsEnsure
  split
  · exact Alike.pure _
  · exact Alike.refuse code text

/-- A check made only under a condition. -/
theorem optional
    {condition : Prop}
    [Decidable condition]
    {program : NsHandler World PUnit}
    {next : PUnit → NsHandler World β}
    (checked : Alike program)
    (second : Alike (next PUnit.unit)) :
    Alike (if condition then program >>= next else next PUnit.unit) := by
  split
  · exact checked.bind fun _ => second
  · exact second

/-- Nothing is read of the index or the cache. -/
theorem read
    {look : NameServer → α}
    (blind :
      ∀ first second, SameRecords first second → look first = look second) :
    Alike (readNs look : NsHandler World α) := by
  intro first second twins
  have seen := blind _ _ twins.records
  simp only [readNs, bind_apply, get_apply, pure_apply, seen]
  exact .returned twins

/-- An operation that finds and leaves the same records. -/
theorem operate
    {operation : NameServer → α × NameServer}
    (found :
      ∀ first second, SameRecords first second → Registry first →
        Registry second →
          (operation first).1 = (operation second).1 ∧
            SameRecords (operation first).2 (operation second).2)
    (keeps : ∀ ns, Registry ns → Registry (operation ns).2) :
    Alike (onNs operation : NsHandler World α) :=
  Lockstep.modifyGet
    (fun _ _ twins =>
      (found _ _ twins.records twins.registry twins.twinRegistry).1)
    fun _ _ twins =>
      ⟨(found _ _ twins.records twins.registry twins.twinRegistry).2,
        twins.world, keeps _ twins.registry, keeps _ twins.twinRegistry⟩

theorem change
    {change : NameServer → NameServer}
    (same :
      ∀ first second, SameRecords first second → Registry first →
        Registry second → SameRecords (change first) (change second))
    (keeps : ∀ ns, Registry ns → Registry (change ns)) :
    Alike (changeNs change : NsHandler World Unit) :=
  Lockstep.modify fun _ _ twins =>
    twins.onRegistry
      (same _ _ twins.records twins.registry twins.twinRegistry)
      (keeps _ twins.registry) (keeps _ twins.twinRegistry)

theorem changeFile
    (index : Nat)
    {change : FileMetadata → FileMetadata}
    (sameName : ∀ file, (change file).filename = file.filename) :
    Alike
      (changeNs (DistributedDocs.changeFile index change) :
        NsHandler World Unit) :=
  .change (fun _ _ same _ _ => same.changeFile index change)
    fun _ registry => registry.changeFile sameName index

theorem changeServer
    (address : Nat)
    (change : StorageServerInfo → StorageServerInfo) :
    Alike
      (changeNs (DistributedDocs.changeServer address change) :
        NsHandler World Unit) :=
  .change (fun _ _ same _ _ => same.changeServer address change)
    fun _ registry => registry.changeServer address change

theorem changeRequest
    (position : Nat)
    (change : AccessRequest → AccessRequest) :
    Alike
      (changeNs (DistributedDocs.changeRequest position change) :
        NsHandler World Unit) :=
  .change (fun _ _ same _ _ => same.changeRequest position change)
    fun _ registry => registry.changeRequest position change

/-- What is asked of a storage server is asked of both worlds. -/
theorem sendAndWait
    (backend : Backend World)
    (address : Nat)
    (fields : List CString) :
    Alike (DistributedDocs.sendAndWait backend address fields) :=
  Lockstep.modifyGet (fun _ _ twins => by rw [twins.world])
    fun _ _ twins =>
      ⟨twins.records, by simp only [twins.world], twins.registry,
        twins.twinRegistry⟩

/-- A lookup finds the same entry, whichever way it goes. -/
theorem lookup (filename : CString) :
    Alike (lookupMetadata filename : NsHandler World _) := by
  intro first second twins
  obtain ⟨coherent, twinCoherent⟩ := twins.coherent
  obtain ⟨looked, known, ran⟩ := lookupMetadata_apply coherent filename
  obtain ⟨twinLooked, twinKnown, twinRan⟩ :=
    lookupMetadata_apply twinCoherent filename
  rw [twins.records.files] at twinRan
  rw [ran, twinRan]
  refine .returned ⟨?_, ?_, ?_, ?_⟩
  · exact (known.onlyCache.sameRecords.symm.trans twins.records).trans
      twinKnown.onlyCache.sameRecords
  · rw [known.sameWorld, twinKnown.sameWorld, twins.world]
  · exact twins.registry.onlyCacheChanged known.coherent known.onlyCache
  · exact twins.twinRegistry.onlyCacheChanged twinKnown.coherent
      twinKnown.onlyCache

/-- Programs that are alike from wherever they start. -/
theorem of_start
    {program : NsHandler World α}
    (alike : ∀ start, AlikeFrom start program) :
    Alike program :=
  fun first second twins =>
    alike first first second
      ⟨twins, Looked.refl twins.registry.coherent⟩

end Alike

namespace AlikeFrom

theorem of_alike
    {program : NsHandler World α}
    (alike : Alike program) :
    AlikeFrom start program :=
  Lockstep.mono alike (fun _ _ => And.left) (fun _ _ _ => id) fun _ _ => id

/-- First look, then go on with what has been found out. -/
theorem look
    {fact : α → Prop}
    {program : NsHandler World α}
    {next : α → NsHandler World β}
    (alike : Alike program)
    (finds : Finds start fact program)
    (second : ∀ value, fact value → AlikeFrom start (next value)) :
    AlikeFrom start (program >>= next) :=
  Lockstep.bind
    (Lockstep.mono (Lockstep.along alike finds) (fun _ _ => id)
      (fun _ _ _ => id) fun _ _ => And.left)
    fun value first second' known =>
      second value known.2.1 first second' ⟨known.1, known.2.2⟩

theorem optional
    {condition : Prop}
    [Decidable condition]
    {program : NsHandler World PUnit}
    {next : PUnit → NsHandler World β}
    (alike : Alike program)
    (finds : Finds start (fun _ => True) program)
    (second : AlikeFrom start (next PUnit.unit)) :
    AlikeFrom start
      (if condition then program >>= next else next PUnit.unit) := by
  split
  · exact look alike finds fun _ _ => second
  · exact second

/-- Looking is over, and the registry is changed. -/
theorem change
    {change : NameServer → NameServer}
    {next : PUnit → NsHandler World β}
    (same :
      ∀ first second : NsState World,
        Twins first second → Looked start first →
          SameRecords (change first.ns) (change second.ns) ∧
            Registry (change first.ns) ∧ Registry (change second.ns))
    (second : Alike (next PUnit.unit)) :
    AlikeFrom start (changeNs change >>= next) := by
  refine Lockstep.bind ?_ fun _ => (second : Alike _)
  exact Lockstep.modify fun first twin ⟨twins, known⟩ =>
    have ⟨alike, keeps, twinKeeps⟩ := same first twin twins known
    twins.onRegistry alike keeps twinKeeps

end AlikeFrom

/-! ## New entries -/

/-- The same new entry is registered under a name that is not taken. -/
theorem Twins.registerFile
    {first second : NsState World}
    (twins : Twins first second)
    {filename : CString}
    {file : FileMetadata}
    (named : file.filename = filename)
    (nonempty : filename ≠ [])
    (fresh : plainScan first.ns.files filename = none) :
    SameRecords (DistributedDocs.registerFile filename file first.ns)
        (DistributedDocs.registerFile filename file second.ns) ∧
      Registry (DistributedDocs.registerFile filename file first.ns) ∧
        Registry (DistributedDocs.registerFile filename file second.ns) := by
  have twinFresh : plainScan second.ns.files filename = none := by
    rw [twins.records.files]
    exact fresh
  exact
    ⟨twins.records.registerFile filename file,
      twins.registry.registerFile named nonempty fresh,
      twins.twinRegistry.registerFile named nonempty twinFresh⟩

end Programs

end DistributedDocs
