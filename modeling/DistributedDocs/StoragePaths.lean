import DistributedDocs.GuardedRun
import DistributedDocs.StorageRecords

namespace DistributedDocs

/-!
# Documents that do not share storage

The four kinds of paths are derived from logical names, and the checks for
existing documents compare logical names only.  As long as the paths a command
takes into use are not in use yet, all paths stay pairwise different and no
command reaches into the files of another document.
-/

/-- The on-disk paths of all records. -/
def pathsInUse (files : List FileRecord) : List CString :=
  files.flatMap FileRecord.paths

/-- Whatever path the command takes is not in use, unless it frees it itself. -/
def TakesFreePaths (ss : StorageServer) (event : SsEvent) : Prop :=
  ∀ path ∈ takenPaths ss event,
    path ∈ pathsInUse ss.files → path ∈ freedPaths ss event

instance (ss : StorageServer) (event : SsEvent) :
    Decidable (TakesFreePaths ss event) :=
  inferInstanceAs
    (Decidable
      (∀ path ∈ takenPaths ss event,
        path ∈ pathsInUse ss.files → path ∈ freedPaths ss event))

/-- Nothing of the record changes in the step: neither its entry nor its files. -/
structure Untouched
    (ss : StorageServer)
    (event : SsEvent)
    (r : FileRecord) : Prop where
  kept : r ∈ (ssStep ss event).files
  bytesAt_eq :
    ∀ path ∈ r.paths,
      (ssStep ss event).disk.bytesAt path = ss.disk.bytesAt path

/-! ## The invariant -/

/-- Every record is where its name says, and no path has two uses. -/
structure PathsApart (ss : StorageServer) : Prop extends
    RecordsPlaced ss where
  paths_nodup : ∀ r ∈ ss.files, r.paths.Nodup
  paths_disjoint :
    ∀ r ∈ ss.files, ∀ q ∈ ss.files,
      r.address ≠ q.address → r.paths.Disjoint q.paths

/-- A path no other record has in use. -/
def FreeBeside
    (files : List FileRecord)
    (address : Nat)
    (path : CString) : Prop :=
  ∀ q ∈ files, q.address ≠ address → path ∉ q.paths

namespace PathsApart

variable {ss : StorageServer}

theorem freeBeside_own
    (apart : PathsApart ss)
    {rec : FileRecord}
    (present : rec ∈ ss.files)
    {path : CString}
    (own : path ∈ rec.paths) :
    FreeBeside ss.files rec.address path :=
  fun q qPresent other inUse =>
    apart.paths_disjoint q qPresent rec present other inUse own

end PathsApart

theorem freeBeside_of_not_mem_pathsInUse
    {files : List FileRecord}
    {path : CString}
    (free : path ∉ pathsInUse files)
    (address : Nat) :
    FreeBeside files address path :=
  fun q present _ inUse =>
    free (List.mem_flatMap.mpr ⟨q, present, inUse⟩)

/-! ## What fits in -/

/--
A scope that fits in with the other records: it reaches none of their paths,
and the record it may leave behind has no path of theirs.
-/
structure FitsIn (ss : StorageServer) (scope : Scope) : Prop where
  footprint_free :
    ∀ path ∈ scope.footprint, FreeBeside ss.files scope.target path
  paths_nodup : ∀ r, scope.allowed r → r.paths.Nodup
  paths_free :
    ∀ r, scope.allowed r →
      ∀ path ∈ r.paths, FreeBeside ss.files scope.target path

theorem noScope_fitsIn (ss : StorageServer) (keepsSessions : Prop) :
    FitsIn ss (noScope keepsSessions) where
  footprint_free path inside := by simp [noScope] at inside
  paths_nodup _ allowed := False.elim allowed
  paths_free _ allowed := False.elim allowed

namespace PathsApart

variable {ss : StorageServer}

/-- A record that keeps its names and gains unused paths fits in. -/
theorem keepsNames_fitsIn
    (apart : PathsApart ss)
    {rec : FileRecord}
    (present : rec ∈ ss.files)
    {extra footprint : List CString}
    (extra_nodup : extra.Nodup)
    (extra_free : ∀ path ∈ extra, path ∉ pathsInUse ss.files)
    (footprint_free :
      ∀ path ∈ footprint, FreeBeside ss.files rec.address path)
    (keepsUndo keepsSessions : Prop) :
    FitsIn ss
      { target := rec.address
        footprint := footprint
        allowed := rec.KeepsNames extra keepsUndo
        keepsSessions := keepsSessions } where
  footprint_free := footprint_free
  paths_nodup r keeps := by
    refine keeps.paths_sublist.nodup ?_
    refine (apart.paths_nodup rec present).append extra_nodup ?_
    intro path own new
    exact extra_free path new
      (List.mem_flatMap.mpr ⟨rec, present, own⟩)
  paths_free r keeps path inside := by
    rcases List.mem_append.mp (keeps.paths_sublist.subset inside) with
      own | new
    · exact apart.freeBeside_own present own
    · exact freeBeside_of_not_mem_pathsInUse (extra_free path new) _

theorem contentScope_fitsIn
    (apart : PathsApart ss)
    {rec : FileRecord}
    (present : rec ∈ ss.files)
    (keepsSessions : Prop) :
    FitsIn ss (contentScope rec keepsSessions) := by
  refine apart.keepsNames_fitsIn present List.nodup_nil (by simp) ?_ _ _
  intro path inside
  exact apart.freeBeside_own present
    (List.mem_append_left _ inside)

theorem checkpointScope_fitsIn
    (apart : PathsApart ss)
    {rec : FileRecord}
    (present : rec ∈ ss.files)
    {ckptPath : CString}
    (free : ckptPath ∉ pathsInUse ss.files) :
    FitsIn ss (checkpointScope rec ckptPath) := by
  refine apart.keepsNames_fitsIn present (List.nodup_singleton _)
    (by simpa using free) ?_ _ _
  intro path inside
  rcases List.mem_cons.mp inside with rfl | inside
  · exact freeBeside_of_not_mem_pathsInUse free _
  · refine apart.freeBeside_own present ?_
    rcases List.mem_cons.mp inside with rfl | snapshot
    · simp [FileRecord.paths]
    · exact List.mem_append_right _ snapshot

theorem copyScope_fitsIn
    (apart : PathsApart ss)
    {destRec : FileRecord}
    (present : destRec ∈ ss.files)
    (free : copyTempPath destRec ∉ pathsInUse ss.files) :
    FitsIn ss (copyScope destRec) := by
  refine apart.keepsNames_fitsIn present List.nodup_nil (by simp) ?_ _ _
  intro path inside
  rcases List.mem_cons.mp inside with rfl | inside
  · exact freeBeside_of_not_mem_pathsInUse free _
  · refine apart.freeBeside_own present ?_
    simp only [List.mem_cons, List.not_mem_nil, or_false] at inside
    rcases inside with rfl | rfl <;> simp [FileRecord.paths]

end PathsApart

theorem PathsApart.renameScope_fitsIn
    {ss : StorageServer}
    (apart : PathsApart ss)
    {rec : FileRecord}
    (present : rec ∈ ss.files)
    {newLogical : CString}
    (nameShort : newLogical.length < maxFilenameLength)
    (free :
      ∀ path ∈ namedPaths ss.storagePath newLogical,
        path ∈ pathsInUse ss.files →
          path ∈ namedPaths ss.storagePath rec.filename) :
    FitsIn ss
      (renameScope rec newLogical (physicalNameOf newLogical)
        (contentPath ss.storagePath rec.filename)
        (contentPath ss.storagePath newLogical)) := by
  have short := ss.storagePath.property
  have placed := apart.wellPlaced rec present
  have oldOwn :
      ∀ path ∈ namedPaths ss.storagePath rec.filename,
        path ∈ rec.paths := by
    intro path named
    rw [placed.paths_eq]
    exact List.mem_append_left _ named
  have newFree :
      ∀ path ∈ namedPaths ss.storagePath newLogical,
        FreeBeside ss.files rec.address path := by
    intro path named
    by_cases inUse : path ∈ pathsInUse ss.files
    · exact apart.freeBeside_own present
        (oldOwn path (free path named inUse))
    · exact freeBeside_of_not_mem_pathsInUse inUse _
  have notSnapshot :
      ∀ path ∈ namedPaths ss.storagePath newLogical,
        path ∉ rec.checkpoints.map CheckpointRecord.filepath := by
    intro path named snapshot
    have own : path ∈ rec.paths := List.mem_append_right _ snapshot
    have named :=
      free path named (List.mem_flatMap.mpr ⟨rec, present, own⟩)
    have nodup := apart.paths_nodup rec present
    rw [placed.paths_eq, List.nodup_append] at nodup
    exact nodup.2.2 path named path snapshot rfl
  refine
    { footprint_free := ?_
      paths_nodup := ?_
      paths_free := ?_ }
  · intro path inside
    rcases mem_footprint_renameScope short inside with old | new
    · exact apart.freeBeside_own present (oldOwn path old)
    · exact newFree path new
  · rintro r ⟨now, rfl⟩
    rw [(paths_renamed short nameShort now rec).2]
    have nodup := apart.paths_nodup rec present
    rw [placed.paths_eq, List.nodup_append] at nodup
    refine (namedPaths_nodup _ _).append nodup.2.1 ?_
    intro path named snapshot
    exact notSnapshot path named snapshot
  · rintro r ⟨now, rfl⟩ path inside
    rw [(paths_renamed short nameShort now rec).2] at inside
    rcases List.mem_append.mp inside with named | snapshot
    · exact newFree path named
    · exact apart.freeBeside_own present (List.mem_append_right _ snapshot)

/-! ## What one command does -/

theorem PathsApart.eventScope_fitsIn
    {ss : StorageServer}
    (apart : PathsApart ss)
    {event : SsEvent}
    (free : TakesFreePaths ss event) :
    FitsIn ss (eventScope ss event) := by
  have unused :
      freedPaths ss event = [] →
        ∀ path ∈ takenPaths ss event, path ∉ pathsInUse ss.files := by
    intro nothingFreed path taken inUse
    have freed := free path taken inUse
    simp [nothingFreed] at freed
  have shape := eventScope_spec ss event
  generalize eventScope ss event = scope at shape ⊢
  cases shape with
  | idle keepsSessions =>
      exact noScope_fitsIn ss keepsSessions
  | content keepsSessions present subject =>
      exact apart.contentScope_fitsIn present keepsSessions
  | checkpoint present subject built taken freed =>
      exact apart.checkpointScope_fitsIn present (unused freed _ taken)
  | rename present subject nameShort taken freed =>
      refine apart.renameScope_fitsIn present nameShort ?_
      intro path named inUse
      exact freed ▸ free path (taken ▸ named) inUse
  | copy present subject taken freed =>
      exact apart.copyScope_fitsIn present (unused freed _ taken)

/-- The record a step leaves behind at its target, or adds. -/
def LeftBehind
    (ss : StorageServer)
    (event : SsEvent)
    (r : FileRecord) : Prop :=
  r.address = (eventScope ss event).target ∧
      (eventScope ss event).allowed r ∨
    ∃ msg, event.command = .createFile msg ∧
      createdRecord ss event.now msg = some r

theorem LeftBehind.address_eq
    {ss : StorageServer}
    {event : SsEvent}
    {r q : FileRecord}
    (rLeft : LeftBehind ss event r)
    (qLeft : LeftBehind ss event q) :
    r.address = q.address := by
  rcases rLeft with ⟨rTarget, rAllowed⟩ | ⟨msg, isCreate, rCreated⟩
  · rcases qLeft with ⟨qTarget, _⟩ | ⟨msg, isCreate, _⟩
    · exact rTarget.trans qTarget.symm
    · simp only [eventScope, isCreate, noScope] at rAllowed
  · rcases qLeft with ⟨_, qAllowed⟩ | ⟨other, sameCreate, qCreated⟩
    · simp only [eventScope, isCreate, noScope] at qAllowed
    · obtain rfl : msg = other := by
        rw [isCreate] at sameCreate
        exact SsCommand.createFile.inj sameCreate
      rw [rCreated] at qCreated
      rw [Option.some.inj qCreated]

/-- A step into free paths leaves behind a record with paths of its own. -/
theorem PathsApart.leftBehind_free
    {ss : StorageServer}
    (apart : PathsApart ss)
    {event : SsEvent}
    (free : TakesFreePaths ss event)
    {r : FileRecord}
    (left : LeftBehind ss event r) :
    r.paths.Nodup ∧
      ∀ path ∈ r.paths, FreeBeside ss.files r.address path := by
  rcases left with ⟨atTarget, allowed⟩ | ⟨msg, isCreate, created⟩
  · have fitsIn := apart.eventScope_fitsIn free
    rw [atTarget]
    exact ⟨fitsIn.paths_nodup r allowed, fitsIn.paths_free r allowed⟩
  · obtain ⟨_, _, paths_eq⟩ := createdRecord_spec created
    rw [paths_eq]
    refine ⟨namedPaths_nodup _ _, ?_⟩
    intro path named
    apply freeBeside_of_not_mem_pathsInUse
    intro inUse
    have freed :=
      free path (by simpa [takenPaths, isCreate, created]) inUse
    simp [freedPaths, isCreate] at freed

/-- A step writes no path of a record it does not act on. -/
theorem PathsApart.writtenPaths_free
    {ss : StorageServer}
    (apart : PathsApart ss)
    {event : SsEvent}
    (free : TakesFreePaths ss event)
    {path : CString}
    (written : path ∈ writtenPaths ss event)
    {r : FileRecord}
    (present : r ∈ ss.files)
    (notSubject : event.subject ss ≠ some r) :
    path ∉ r.paths := by
  have byScope :
      path ∈ (eventScope ss event).footprint → path ∉ r.paths := by
    intro inside
    rcases target_of_eventScope ss event with
      ⟨keepsSessions, idle⟩ | ⟨rec, recPresent, subject, atTarget⟩
    · simp [idle, noScope] at inside
    · apply (apart.eventScope_fitsIn free).footprint_free path inside r
        present
      intro same
      have isRec :=
        eq_of_address apart.addresses_nodup present recPresent
          (same.trans atTarget.symm)
      exact notSubject (isRec ▸ subject)
  obtain ⟨now, command⟩ := event
  cases command with
  | createFile msg =>
      cases created : createdRecord ss now msg with
      | none =>
          simp [writtenPaths, created] at written
      | some newRecord =>
          intro inUse
          have named :
              path ∈ namedPaths ss.storagePath newRecord.filename := by
            rw [← (createdRecord_spec created).2.2]
            simp only [writtenPaths, created, List.mem_cons,
              List.not_mem_nil, or_false] at written
            rcases written with rfl | rfl <;> simp [FileRecord.paths]
          have freed :=
            free path (by simpa [takenPaths, created])
              (List.mem_flatMap.mpr ⟨r, present, inUse⟩)
          simp [freedPaths] at freed
  | deleteFile msg =>
      cases deleted : deletedRecord ss msg with
      | none =>
          simp [writtenPaths, deleted] at written
      | some node =>
          obtain ⟨nodePresent, subject⟩ :=
            deletedRecord_subject deleted now
          simp only [writtenPaths, deleted] at written
          intro inUse
          refine apart.paths_disjoint r present node nodePresent ?_ inUse
            written
          intro same
          have isNode :=
            eq_of_address apart.addresses_nodup present nodePresent same
          exact notSubject (isNode ▸ subject)
  | _ =>
      exact byScope written

/-- Nothing the event does not act on changes. -/
def OthersUntouched (ss : StorageServer) (event : SsEvent) : Prop :=
  ∀ r ∈ ss.files, event.subject ss ≠ some r → Untouched ss event r

/-- A step into free paths keeps all paths apart and spares all others. -/
theorem ssStep_apart
    {ss : StorageServer}
    (apart : PathsApart ss)
    {event : SsEvent}
    (free : TakesFreePaths ss event) :
    PathsApart (ssStep ss event) ∧ OthersUntouched ss event := by
  refine ⟨⟨apart.toRecordsPlaced.ssStep event, ?_, ?_⟩, ?_⟩
  · intro r member
    rcases mem_files_ssStep member with present | left
    · exact apart.paths_nodup r present
    · exact (apart.leftBehind_free free left).1
  · intro r rMember q qMember other path rUses qUses
    rcases mem_files_ssStep rMember with rOld | rLeft
    · rcases mem_files_ssStep qMember with qOld | qLeft
      · exact apart.paths_disjoint r rOld q qOld other rUses qUses
      · exact (apart.leftBehind_free free qLeft).2 path qUses r rOld other
          rUses
    · rcases mem_files_ssStep qMember with qOld | qLeft
      · exact (apart.leftBehind_free free rLeft).2 path rUses q qOld
          other.symm qUses
      · exact other (LeftBehind.address_eq rLeft qLeft)
  · intro r present notSubject
    refine ⟨apart.kept_of_not_subject present notSubject, ?_⟩
    intro path inUse
    apply (stepEffect ss event).disk_agrees.bytesAt_eq
    intro written
    exact apart.writtenPaths_free free written present notSubject inUse

end DistributedDocs
