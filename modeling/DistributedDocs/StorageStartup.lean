import DistributedDocs.MetadataSidecar
import DistributedDocs.StorageDirectory
import DistributedDocs.StoragePaths

namespace DistributedDocs

/-!
# A storage server that starts

`ss_load_existing_files` makes a record of every file in the storage directory
whose name is not that of a sidecar or of a snapshot, and reads its sidecar.
-/

/-- An entry `readdir` returns. -/
structure DirEntry where
  name : CString
  isDirectory : Bool
  deriving DecidableEq

/-- Whether a name ends with a suffix and is longer. -/
def endsBeyond (suffix name : CString) : Bool :=
  suffix.length < name.length && suffix.isSuffixOf name

/-- The names `ss_load_existing_files` makes records of. -/
def isDocumentName (name : CString) : Bool :=
  name ≠ str "." && name ≠ str ".." && name ≠ [] &&
    !endsBeyond ssMetaSuffix name && !endsBeyond ssUndoSuffix name &&
      !decide (str ".ckpt_" <:+: name)

/-- The entries `ss_load_existing_files` makes records of. -/
def isDocument (entry : DirEntry) : Bool :=
  !entry.isDirectory && isDocumentName entry.name

/-- `ss_load_metadata`; none where it returns -1. -/
def ssLoadMetadata (rec : FileRecord) : Handler (Option FileRecord) := do
  let bytes ← onDisk (Disk.read rec.metapath)
  return bytes.map (loadMetadata (← get).storagePath rec)

/-- Put a record in front of the list. -/
def insertRecord (rec : FileRecord) : Handler Unit :=
  modify fun ss =>
    { ss with
      files := rec :: ss.files
      nextAddress := ss.nextAddress + 1 }

/-- `ss_add_file_record` -/
def ssAddFileRecord (now : Int) (filename : CString) : Handler Unit := do
  let ss ← get
  let blank := ssInitFileRecord ss.storagePath ss.nextAddress filename
  match ← ssLoadMetadata blank with
  | some loaded =>
      insertRecord loaded
  | none =>
      let described :=
        { blank with
          created := now
          modified := now
          lastAccess := now
          undoAvailable := 0
          readUsers := []
          writeUsers := [] }
      let _ ← ssWriteMetadata described
      insertRecord described

/-- `ss_load_existing_files`, from the opened directory on. -/
def ssLoadExistingFiles (now : Int) : List DirEntry → Handler Unit
  | [] =>
      pure ()
  | entry :: rest => do
      if isDocument entry then
        ssAddFileRecord now entry.name
      ssLoadExistingFiles now rest

/-- The server with nothing but its disk. -/
def StorageServer.restarted (ss : StorageServer) : StorageServer :=
  { newServer ss.storagePath with disk := ss.disk }

/-- The path of a name in the storage directory. -/
def StorageServer.pathOf (ss : StorageServer) (name : CString) : CString :=
  ss.storagePath ++ str "/" ++ name

/-- What `readdir` returns one after another, in whatever order. -/
structure DirectoryListing
    (ss : StorageServer)
    (entries : List DirEntry) : Prop where
  nodup :
    ((entries.filter fun entry => !entry.isDirectory).map
      DirEntry.name).Nodup
  listed :
    ∀ name,
      ⟨name, false⟩ ∈ entries ↔
        CChar.ofChar '/' ∉ name ∧
          (ss.disk.bytesAt (ss.pathOf name)).isSome = true

/-- A record less its address, which is given out anew. -/
def FileRecord.persistent (rec : FileRecord) : FileRecord :=
  { rec with address := 0 }

/-- Whatever order the directory is read in, the same records come back. -/
def SurvivesRestart (ss : StorageServer) : Prop :=
  ∀ (now : Int) (entries : List DirEntry),
    DirectoryListing ss entries →
      ∃ after,
        ssLoadExistingFiles now entries ss.restarted = .ok () after ∧
          (after.files.map FileRecord.persistent).Perm
            (ss.files.map FileRecord.persistent)

/-! ## What a restart needs -/

/-- A record with its content and its sidecar on the disk. -/
structure FileRecord.Kept
    (storagePath : CString)
    (disk : Disk CString)
    (rec : FileRecord) : Prop extends rec.Restorable storagePath where
  document : isDocumentName (physicalNameOf rec.filename) = true
  contained : (disk.bytesAt rec.filepath).isSome = true
  described :
    disk.bytesAt rec.metapath = some (rawBytes (metadataText rec))
  snapshots :
    ∀ ckpt ∈ rec.checkpoints,
      ∃ base,
        ckpt.filepath = storagePath ++ str "/" ++ base ∧
          str ".ckpt_" <:+: base

/-- Every record is kept, and nothing else is on the disk. -/
structure Restartable (ss : StorageServer) : Prop extends PathsApart ss where
  undisturbed : ss.disk.outcomes = []
  kept : ∀ rec ∈ ss.files, rec.Kept ss.storagePath ss.disk
  onlyOwn :
    ∀ path,
      (ss.disk.bytesAt path).isSome = true → path ∈ pathsInUse ss.files

/-- A physical name is its own physical name. -/
theorem physicalNameOf_physicalNameOf
    {name : CString}
    (short : name.length < maxFilenameLength) :
    physicalNameOf (physicalNameOf name) = physicalNameOf name := by
  rw [physicalNameOf_eq_map (length_physicalNameOf name)]
  have unchanged :
      ∀ c ∈ physicalNameOf name,
        (if c = CChar.ofChar '/' then CChar.ofChar '_' else c) = c := by
    intro c member
    refine if_neg ?_
    rintro rfl
    exact slash_not_mem_physicalNameOf short member
  exact (List.map_congr_left unchanged).trans (List.map_id _)

section Loading

variable
  {ss : StorageServer}
  (restartable : Restartable ss)

include restartable

/-- Adding the record of a kept document reads the document's sidecar. -/
theorem Restartable.ssAddFileRecord_eq
    {rec : FileRecord}
    (present : rec ∈ ss.files)
    {name : CString}
    (named : rec.filepath = ss.pathOf name)
    (now : Int)
    {current : StorageServer}
    (samePath : current.storagePath = ss.storagePath)
    (sameDisk : current.disk = ss.disk) :
    ssAddFileRecord now name current =
      .ok ()
        { current with
          files :=
            { rec with address := current.nextAddress } :: current.files
          nextAddress := current.nextAddress + 1 } := by
  have kept := restartable.kept rec present
  have nameIs : physicalNameOf rec.filename = name := by
    have filepath := kept.filepath_eq
    rw [named, StorageServer.pathOf, contentPath, List.append_right_inj]
      at filepath
    exact filepath.symm
  have nameShort : name.length < maxFilenameLength := by
    rw [← nameIs]
    exact length_physicalNameOf _
  have ownName : physicalNameOf name = name := by
    rw [← nameIs]
    exact physicalNameOf_physicalNameOf rec.filename_short
  have metapath :
      (ssInitFileRecord ss.storagePath current.nextAddress name).metapath =
        rec.metapath := by
    have placed :
        (ssInitFileRecord ss.storagePath current.nextAddress
          name).WellPlaced ss.storagePath :=
      wellPlaced_ssSetRecordPaths ss.storagePath.property nameShort _
    have filename :
        (ssInitFileRecord ss.storagePath current.nextAddress
          name).filename = name :=
      safeStrcpy_of_short nameShort
    rw [placed.metapath_eq, placed.filepath_eq, filename, kept.metapath_eq,
      named, contentPath, ownName]
    rfl
  have undisturbed : current.disk.outcomes = [] :=
    sameDisk ▸ restartable.undisturbed
  have read :
      current.disk.bytesAt
          (ssInitFileRecord ss.storagePath current.nextAddress
            name).metapath =
        some (rawBytes (metadataText rec)) := by
    rw [metapath, sameDisk, kept.described]
  have loaded :=
    kept.loadMetadata_metadataText ss.storagePath.property
      (ssInitFileRecord ss.storagePath current.nextAddress name)
  simp only [ssAddFileRecord, ssLoadMetadata, bind_apply, get_apply,
    onDisk_apply, samePath, Disk.read_undisturbed undisturbed, read,
    Option.map_some, pure_apply, loaded, insertRecord, modify_apply]
  rfl

/-- The documents among the entries are added one after another. -/
theorem Restartable.ssLoadExistingFiles_eq
    (now : Int)
    {entries : List DirEntry}
    (known :
      ∀ entry ∈ entries, isDocument entry = true →
        ∃ rec ∈ ss.files, rec.filepath = ss.pathOf entry.name)
    {current : StorageServer}
    (samePath : current.storagePath = ss.storagePath)
    (sameDisk : current.disk = ss.disk) :
    ∃ (after : StorageServer) (recs : List FileRecord),
      ssLoadExistingFiles now entries current = .ok () after ∧
        (∀ rec ∈ recs, rec ∈ ss.files) ∧
        recs.map FileRecord.filepath =
          (entries.filter isDocument).map
            (fun entry => ss.pathOf entry.name) ∧
        (after.files.map FileRecord.persistent).Perm
          (recs.map FileRecord.persistent ++
            current.files.map FileRecord.persistent) := by
  induction entries generalizing current with
  | nil =>
      exact ⟨current, [], rfl, by simp, rfl, .refl _⟩
  | cons entry rest inductionHypothesis =>
      rw [List.forall_mem_cons] at known
      cases document : isDocument entry with
      | false =>
          obtain ⟨after, recs, runs, listed, paths, loaded⟩ :=
            inductionHypothesis known.2 samePath sameDisk
          refine ⟨after, recs, ?_, listed, ?_, loaded⟩
          · simp [ssLoadExistingFiles, document, runs]
          · rw [List.filter_cons_of_neg (by simp [document]), paths]
      | true =>
          obtain ⟨rec, present, named⟩ := known.1 document
          have added :=
            restartable.ssAddFileRecord_eq present named now samePath sameDisk
          obtain ⟨after, recs, runs, listed, paths, loaded⟩ :=
            @inductionHypothesis known.2
              { current with
                files :=
                  { rec with address := current.nextAddress } ::
                    current.files
                nextAddress := current.nextAddress + 1 }
              samePath sameDisk
          refine ⟨after, rec :: recs, ?_, ?_, ?_, ?_⟩
          · simp [ssLoadExistingFiles, document, added, runs]
          · exact List.forall_mem_cons.mpr ⟨present, listed⟩
          · rw [List.filter_cons_of_pos document, List.map_cons,
              List.map_cons, paths, named]
          · exact loaded.trans List.perm_middle

/-- Only the content of a record has the name of a document. -/
theorem Restartable.filepath_eq_of_document
    {name : CString}
    (document : isDocumentName name = true)
    (stored : (ss.disk.bytesAt (ss.pathOf name)).isSome = true) :
    ∃ rec ∈ ss.files, rec.filepath = ss.pathOf name := by
  obtain ⟨rec, present, own⟩ :=
    List.mem_flatMap.mp (restartable.onlyOwn _ stored)
  have kept := restartable.kept rec present
  refine ⟨rec, present, ?_⟩
  simp only [isDocumentName, Bool.and_eq_true, Bool.not_eq_true',
    decide_eq_false_iff_not] at document
  obtain ⟨⟨⟨_, notMeta⟩, notUndo⟩, notSnapshot⟩ := document
  have nonempty : physicalNameOf rec.filename ≠ [] := by
    have isDocument := kept.document
    simp only [isDocumentName, Bool.and_eq_true, decide_eq_true_eq]
      at isDocument
    exact isDocument.1.1.1.2
  have notSidecar :
      ∀ suffix : CString, endsBeyond suffix name = false →
        ss.pathOf name ≠ rec.filepath ++ suffix := by
    intro suffix notSuffixed same
    rw [StorageServer.pathOf, kept.filepath_eq, contentPath,
      List.append_assoc _ (physicalNameOf _), List.append_right_inj] at same
    rw [same, endsBeyond, Bool.and_eq_false_iff] at notSuffixed
    rcases notSuffixed with short | other
    · have physicalLong := List.length_pos_iff.mpr nonempty
      rw [decide_eq_false_iff_not, List.length_append] at short
      omega
    · rw [Bool.eq_false_iff, ne_eq, List.isSuffixOf_iff_suffix] at other
      exact other (List.suffix_append _ _)
  simp only [FileRecord.paths, List.cons_append, List.nil_append,
    List.mem_cons, List.mem_map] at own
  rcases own with content | sidecar | undo | ⟨ckpt, taken, snapshot⟩
  · exact content.symm
  · rw [kept.metapath_eq] at sidecar
    exact absurd sidecar (notSidecar _ notMeta)
  · rw [kept.undopath_eq] at undo
    exact absurd undo (notSidecar _ notUndo)
  · obtain ⟨base, built, marked⟩ := kept.snapshots ckpt taken
    rw [built, StorageServer.pathOf, List.append_right_inj] at snapshot
    exact absurd (snapshot ▸ marked) notSnapshot

/-- The entries of documents are those of the contents of the records. -/
theorem Restartable.survivesRestart : SurvivesRestart ss := by
  intro now entries listing
  have regular :
      ∀ entry ∈ entries, isDocument entry = true →
        ⟨entry.name, false⟩ ∈ entries ∧
          isDocumentName entry.name = true := by
    rintro ⟨name, isDirectory⟩ listed document
    rw [isDocument, Bool.and_eq_true, Bool.not_eq_true'] at document
    obtain ⟨rfl, named⟩ := document
    exact ⟨listed, named⟩
  have known :
      ∀ entry ∈ entries, isDocument entry = true →
        ∃ rec ∈ ss.files, rec.filepath = ss.pathOf entry.name := by
    intro entry listed document
    obtain ⟨regularListed, named⟩ := regular entry listed document
    exact restartable.filepath_eq_of_document named
      ((listing.listed entry.name).mp regularListed).2
  obtain ⟨after, recs, runs, listed, paths, loaded⟩ :=
    @Restartable.ssLoadExistingFiles_eq ss restartable now entries known
      ss.restarted rfl rfl
  refine ⟨after, runs, loaded.trans ?_⟩
  have nothing : ss.restarted.files = [] := rfl
  rw [nothing, List.map_nil, List.append_nil]
  apply List.Perm.map
  have recsNodup : recs.Nodup := by
    apply List.Nodup.of_map FileRecord.filepath
    rw [paths]
    have fewer :
        (entries.filter isDocument).Sublist
          (entries.filter fun entry => !entry.isDirectory) :=
      List.monotone_filter_right entries fun entry document =>
        (Bool.and_eq_true_iff.mp document).1
    have names := listing.nodup.sublist (fewer.map DirEntry.name)
    have injective : Function.Injective ss.pathOf :=
      fun first second same => List.append_right_inj _ |>.mp same
    have pathsApart := names.map injective
    rwa [List.map_map] at pathsApart
  have filesNodup : ss.files.Nodup :=
    List.Nodup.of_map FileRecord.address restartable.addresses_nodup
  rw [List.perm_ext_iff_of_nodup recsNodup filesNodup]
  intro rec
  constructor
  · exact listed rec
  · intro present
    have kept := restartable.kept rec present
    have atContent :
        rec.filepath = ss.pathOf (physicalNameOf rec.filename) :=
      kept.filepath_eq
    have entryListed : ⟨physicalNameOf rec.filename, false⟩ ∈ entries :=
      (listing.listed _).mpr
        ⟨slash_not_mem_physicalNameOf rec.filename_short,
          atContent ▸ kept.contained⟩
    have pathListed : rec.filepath ∈ recs.map FileRecord.filepath := by
      rw [paths, atContent]
      exact List.mem_map.mpr
        ⟨_, List.mem_filter.mpr ⟨entryListed, kept.document⟩, rfl⟩
    obtain ⟨other, otherListed, same⟩ := List.mem_map.mp pathListed
    have isRec : other = rec := by
      apply eq_of_address restartable.addresses_nodup
        (listed other otherListed) present
      by_contra different
      have own : ∀ r : FileRecord, r.filepath ∈ r.paths := by
        simp [FileRecord.paths]
      exact restartable.paths_disjoint other (listed other otherListed) rec
        present different (own other) (same ▸ own rec)
    rwa [isRec] at otherListed

end Loading

end DistributedDocs
