import Mathlib.Data.List.Forall2
import DistributedDocs.Checkpoints
import DistributedDocs.CopyReplacement
import DistributedDocs.FileStatistics
import DistributedDocs.StoragePaths
import DistributedDocs.StorageRequests
import DistributedDocs.VersionedStore

namespace DistributedDocs

/-!
# A storage server as a store of versioned documents

A record, its content file, its undo snapshot and its checkpoint files together
are one document.  What a command leaves of them is the document after a
command of the same name.
-/

/-- A document as its files hold it. -/
abbrev Document := VersionedDocument CString RawBytes

/-- Bounds of a locked sentence, and what replaces it. -/
structure SentenceEdit where
  start : Nat
  stop : Nat
  sentence : CString
  deriving DecidableEq

/-- What clients and the name server do to the documents of a server. -/
abbrev DocumentCommand := StoreCommand CString CString RawBytes SentenceEdit

/-- Texts as the server edits and keeps them. -/
def documentRules : StoreRules RawBytes SentenceEdit where
  perform change text :=
    rawBytes
      (splice (cString text) change.start change.stop change.sentence)
  empty := []
  limit := ssMaxCheckpoints

/-- The documents of a server. -/
abbrev Documents := VersionedStore CString CString RawBytes

/-! ## A record and its files -/

/-- A checkpoint and its file are a snapshot. -/
structure CheckpointRecord.Keeps
    (disk : Disk CString)
    (ckpt : CheckpointRecord)
    (snapshot : CString × RawBytes) : Prop where
  tag : ckpt.tag = snapshot.1
  tag_short : ckpt.tag.length < maxFilenameLength
  stored : disk.bytesAt ckpt.filepath = some snapshot.2

/-- Record and files make up the document. -/
structure FileRecord.Carries
    (disk : Disk CString)
    (rec : FileRecord)
    (doc : Document) : Prop where
  content : disk.bytesAt rec.filepath = some doc.content
  previous_none : rec.undoAvailable = 0 → doc.previous = none
  previous_some :
    rec.undoAvailable ≠ 0 →
      ∃ text, doc.previous = some text ∧
        disk.bytesAt rec.undopath = some text
  snapshots :
    List.Forall₂ (CheckpointRecord.Keeps disk) rec.checkpoints doc.snapshots

/-- Snapshots stay while their files do. -/
theorem keeps_of_agrees
    {before after : Disk CString}
    {checkpoints : List CheckpointRecord}
    {snapshots : List (CString × RawBytes)}
    (keeps :
      List.Forall₂ (CheckpointRecord.Keeps before) checkpoints snapshots)
    (agrees :
      ∀ ckpt ∈ checkpoints,
        after.bytesAt ckpt.filepath = before.bytesAt ckpt.filepath) :
    List.Forall₂ (CheckpointRecord.Keeps after) checkpoints snapshots :=
  ((List.forall₂_and_left _ _).mpr ⟨agrees, keeps⟩).imp
    fun _ _ ⟨agree, keeps⟩ => { keeps with stored := agree.trans keeps.stored }

namespace FileRecord.Carries

variable
  {disk : Disk CString}
  {rec : FileRecord}
  {doc : Document}

/-- The document depends on the record's own files only. -/
theorem of_agrees
    (carries : rec.Carries disk doc)
    {after : Disk CString}
    (agrees : ∀ path ∈ rec.paths, after.bytesAt path = disk.bytesAt path) :
    rec.Carries after doc where
  content := by
    rw [agrees rec.filepath (by simp [FileRecord.paths])]
    exact carries.content
  previous_none := carries.previous_none
  previous_some available := by
    rw [agrees rec.undopath (by simp [FileRecord.paths])]
    exact carries.previous_some available
  snapshots :=
    keeps_of_agrees carries.snapshots fun ckpt listed =>
      agrees ckpt.filepath
        (List.mem_append_right _ (List.mem_map_of_mem listed))

/-- There is one document at most that a record and its files make up. -/
theorem unique
    {other : Document}
    (carries : rec.Carries disk doc)
    (alsoOther : rec.Carries disk other) :
    doc = other := by
  have contents : doc.content = other.content :=
    Option.some.inj (carries.content.symm.trans alsoOther.content)
  have previous : doc.previous = other.previous := by
    by_cases nothing : rec.undoAvailable = 0
    · rw [carries.previous_none nothing, alsoOther.previous_none nothing]
    · obtain ⟨text, isText, stored⟩ := carries.previous_some nothing
      obtain ⟨again, isAgain, storedToo⟩ := alsoOther.previous_some nothing
      rw [isText, isAgain, ← stored, storedToo]
  have snapshots : doc.snapshots = other.snapshots := by
    refine List.right_unique_forall₂' ?_ carries.snapshots
      alsoOther.snapshots
    intro ckpt snapshot again keeps keepsToo
    exact Prod.ext (keeps.tag.symm.trans keepsToo.tag)
      (Option.some.inj (keeps.stored.symm.trans keepsToo.stored))
  exact VersionedDocument.ext contents previous snapshots

/-- The server finds a checkpoint exactly when the tag has a snapshot. -/
theorem snapshotAt_eq
    (carries : rec.Carries disk doc)
    {tag : CString}
    (nonempty : tag ≠ []) :
    doc.snapshotAt tag =
      (ssFindCheckpoint rec tag).bind fun ckpt =>
        disk.bytesAt ckpt.filepath := by
  rw [ssFindCheckpoint, if_neg nonempty, VersionedDocument.snapshotAt]
  have listed := carries.snapshots
  generalize rec.checkpoints = checkpoints at listed
  generalize doc.snapshots = snapshots at listed
  induction listed with
  | nil =>
      rfl
  | @cons ckpt snapshot checkpoints snapshots keeps _ inductionHypothesis =>
      have sameFound :
          strncmpEq ckpt.tag tag maxFilenameLength =
            decide (snapshot.1 = tag) := by
        rw [← keeps.tag, Bool.eq_iff_iff, strncmpEq_iff keeps.tag_short,
          decide_eq_true_iff]
      rw [List.find?_cons, List.find?_cons, sameFound]
      cases decide (snapshot.1 = tag) with
      | true => exact keeps.stored.symm
      | false => exact inductionHypothesis

end FileRecord.Carries

/-! ## What becomes of a document -/

/-- The files of a record are different ones. -/
theorem FileRecord.own_apart
    {rec : FileRecord}
    (nodup : rec.paths.Nodup) :
    (rec.filepath ≠ rec.metapath ∧ rec.filepath ≠ rec.undopath ∧
        rec.metapath ≠ rec.undopath) ∧
      ∀ ckpt ∈ rec.checkpoints,
        ckpt.filepath ≠ rec.filepath ∧ ckpt.filepath ≠ rec.metapath ∧
          ckpt.filepath ≠ rec.undopath := by
  rw [FileRecord.paths, List.nodup_append] at nodup
  obtain ⟨own, _, apart⟩ := nodup
  simp only [List.nodup_cons, List.mem_cons, List.not_mem_nil, or_false,
    not_or] at own
  refine ⟨⟨own.1.1, own.1.2, own.2.1⟩, fun ckpt listed => ?_⟩
  have snapshot : ckpt.filepath ∈ rec.checkpoints.map CheckpointRecord.filepath :=
    List.mem_map_of_mem listed
  exact ⟨(apart _ (by simp) _ snapshot).symm,
    (apart _ (by simp) _ snapshot).symm, (apart _ (by simp) _ snapshot).symm⟩

namespace FileRecord.Carries

variable
  {disk : Disk CString}
  {rec : FileRecord}
  {doc : Document}
  (carries : rec.Carries disk doc)
  (nodup : rec.paths.Nodup)

include carries nodup

/-- A description that is written anew does not change the document. -/
theorem redescribed
    {r : FileRecord}
    (same : rec.Redescribes r)
    {after : Disk CString}
    (agrees :
      ∀ path ∈ rec.paths, path ≠ rec.metapath →
        after.bytesAt path = disk.bytesAt path) :
    r.Carries after doc := by
  obtain ⟨⟨contentMeta, _, metaUndo⟩, snapshots⟩ :=
    FileRecord.own_apart nodup
  have contentStays :=
    agrees rec.filepath (by simp [FileRecord.paths]) contentMeta
  have undoStays :=
    agrees rec.undopath (by simp [FileRecord.paths]) metaUndo.symm
  exact
    { content := by
        rw [same.filepath_eq, contentStays, carries.content]
      previous_none := by
        rw [same.undoAvailable_eq]
        exact carries.previous_none
      previous_some := by
        rw [same.undoAvailable_eq, same.undopath_eq, undoStays]
        exact carries.previous_some
      snapshots := by
        rw [same.checkpoints_eq]
        exact keeps_of_agrees carries.snapshots fun ckpt listed =>
          agrees ckpt.filepath
            (List.mem_append_right _ (List.mem_map_of_mem listed))
            (snapshots ckpt listed).2.1 }

/-- A commit or a revert: another content, and the one before is kept. -/
theorem rewritten
    (now : Int)
    (username : CString)
    (text : RawBytes)
    (description : CString) :
    (rec.rewritten now username 1).Carries
      (rec.diskAfter disk doc.content text description)
      (doc.edited text) := by
  obtain ⟨⟨contentMeta, contentUndo, metaUndo⟩, snapshots⟩ :=
    FileRecord.own_apart nodup
  have content :
      (rec.diskAfter disk doc.content text description).bytesAt
          rec.filepath = some text := by
    rw [FileRecord.diskAfter, Disk.bytesAt_set_of_ne contentMeta,
      Disk.bytesAt_set_same]
  have previous :
      (rec.diskAfter disk doc.content text description).bytesAt
          rec.undopath = some doc.content := by
    rw [FileRecord.diskAfter, Disk.bytesAt_set_of_ne metaUndo.symm,
      Disk.bytesAt_set_of_ne contentUndo.symm, Disk.bytesAt_set_same]
  exact
    { content := content
      previous_none := fun nothing => by cases nothing
      previous_some := fun _ => ⟨doc.content, rfl, previous⟩
      snapshots := by
        refine keeps_of_agrees carries.snapshots fun ckpt listed => ?_
        obtain ⟨notContent, notMeta, notUndo⟩ := snapshots ckpt listed
        rw [FileRecord.diskAfter, Disk.bytesAt_set_of_ne notMeta,
          Disk.bytesAt_set_of_ne notContent, Disk.bytesAt_set_of_ne notUndo] }

/-- An undo: the kept content is the content again, and no other is kept. -/
theorem undone
    (now : Int)
    (username : CString)
    (text description : RawBytes) :
    (rec.rewritten now username 0).Carries
      ((disk.set rec.filepath (some text)).set rec.metapath
        (some description))
      { doc with
        content := text
        previous := none } := by
  obtain ⟨⟨contentMeta, _, _⟩, snapshots⟩ := FileRecord.own_apart nodup
  exact
    { content := by
        show Disk.bytesAt _ rec.filepath = some text
        rw [Disk.bytesAt_set_of_ne contentMeta, Disk.bytesAt_set_same]
      previous_none := fun _ => rfl
      previous_some := fun available => absurd rfl available
      snapshots := by
        refine keeps_of_agrees carries.snapshots fun ckpt listed => ?_
        obtain ⟨notContent, notMeta, _⟩ := snapshots ckpt listed
        rw [Disk.bytesAt_set_of_ne notMeta, Disk.bytesAt_set_of_ne notContent] }

/-- A copy: another content, and nothing is kept of the one before. -/
theorem replaced
    (now : Int)
    (username : CString)
    (text description : RawBytes)
    {scratch : CString}
    (notUsed : scratch ∉ rec.paths) :
    (rec.touched now (some username) true).Carries
      (((disk.set scratch none).set rec.filepath (some text)).set
        rec.metapath (some description))
      (doc.replaced text) := by
  obtain ⟨⟨contentMeta, contentUndo, metaUndo⟩, snapshots⟩ :=
    FileRecord.own_apart nodup
  have notScratch : ∀ path ∈ rec.paths, path ≠ scratch := by
    rintro path own rfl
    exact notUsed own
  exact
    { content := by
        show Disk.bytesAt _ rec.filepath = some text
        rw [Disk.bytesAt_set_of_ne contentMeta, Disk.bytesAt_set_same]
      previous_none := carries.previous_none
      previous_some := by
        intro available
        obtain ⟨kept, isKept, stored⟩ := carries.previous_some available
        refine ⟨kept, isKept, ?_⟩
        show Disk.bytesAt _ rec.undopath = some kept
        rw [Disk.bytesAt_set_of_ne metaUndo.symm,
          Disk.bytesAt_set_of_ne contentUndo.symm,
          Disk.bytesAt_set_of_ne
            (notScratch _ (by simp [FileRecord.paths])), stored]
      snapshots := by
        refine keeps_of_agrees carries.snapshots fun ckpt listed => ?_
        obtain ⟨notContent, notMeta, _⟩ := snapshots ckpt listed
        rw [Disk.bytesAt_set_of_ne notMeta, Disk.bytesAt_set_of_ne notContent,
          Disk.bytesAt_set_of_ne
            (notScratch _
              (List.mem_append_right _ (List.mem_map_of_mem listed)))] }

/-- A checkpoint: a snapshot more, and the oldest one less if they are many. -/
theorem checkpointed
    (now : Int)
    (username tag : CString)
    (tagShort : tag.length < maxFilenameLength)
    (description : CString)
    {ckptPath : CString}
    (free : ckptPath ∉ rec.paths) :
    (rec.checkpointed now username tag ckptPath).Carries
      (rec.diskAfterCheckpoint disk doc.content ckptPath description)
      { doc with
        snapshots :=
          (if ssMaxCheckpoints ≤ doc.snapshots.length then
              doc.snapshots.tail
            else doc.snapshots) ++ [(tag, doc.content)] } := by
  obtain ⟨⟨contentMeta, contentUndo, metaUndo⟩, snapshots⟩ :=
    FileRecord.own_apart nodup
  have notNew : ∀ path ∈ rec.paths, path ≠ ckptPath := by
    rintro path own rfl
    exact free own
  have stays :
      ∀ path ∈ rec.paths, path ≠ rec.metapath → path ∉ rec.evictedPaths →
        (rec.diskAfterCheckpoint disk doc.content ckptPath
          description).bytesAt path = disk.bytesAt path := by
    intro path own notMeta notEvicted
    rw [FileRecord.diskAfterCheckpoint, Disk.bytesAt_set_of_ne notMeta,
      Disk.bytesAt_clear, if_neg notEvicted,
      Disk.bytesAt_set_of_ne (notNew path own)]
  have evictedSnapshot :
      ∀ path ∈ rec.evictedPaths, path ≠ rec.filepath ∧ path ≠ rec.undopath := by
    intro path evicted
    obtain ⟨ckpt, listed, rfl⟩ :=
      List.mem_map.mp (rec.evictedPaths_sublist.subset evicted)
    exact ⟨(snapshots ckpt listed).1, (snapshots ckpt listed).2.2⟩
  have contentStays :=
    stays rec.filepath (by simp [FileRecord.paths]) contentMeta
      fun evicted => (evictedSnapshot _ evicted).1 rfl
  have undoStays :=
    stays rec.undopath (by simp [FileRecord.paths]) metaUndo.symm
      fun evicted => (evictedSnapshot _ evicted).2 rfl
  have snapshotPaths :
      (rec.checkpoints.map CheckpointRecord.filepath).Nodup := by
    rw [FileRecord.paths, List.nodup_append] at nodup
    exact nodup.2.1
  have kept :
      List.Forall₂ (CheckpointRecord.Keeps disk) rec.keptCheckpoints
        (if ssMaxCheckpoints ≤ doc.snapshots.length then
          doc.snapshots.tail
        else doc.snapshots) := by
    rw [FileRecord.keptCheckpoints, carries.snapshots.length_eq]
    split
    · rw [← List.drop_one, ← List.drop_one]
      exact List.forall₂_drop 1 carries.snapshots
    · exact carries.snapshots
  have newStored :
      (rec.diskAfterCheckpoint disk doc.content ckptPath
        description).bytesAt ckptPath = some doc.content := by
    have notMeta := (notNew rec.metapath (by simp [FileRecord.paths])).symm
    have notContent := notNew rec.filepath (by simp [FileRecord.paths])
    have notGivenUp : ckptPath ∉ rec.evictedPaths := fun evicted =>
      free (List.mem_append_right _ (rec.evictedPaths_sublist.subset evicted))
    rw [FileRecord.diskAfterCheckpoint, Disk.bytesAt_set_of_ne notMeta,
      Disk.bytesAt_clear, if_neg notGivenUp, Disk.bytesAt_set_same,
      if_neg notContent]
  exact
    { content := contentStays.trans carries.content
      previous_none := carries.previous_none
      previous_some := by
        intro available
        obtain ⟨text, isText, stored⟩ := carries.previous_some available
        exact ⟨text, isText, undoStays.trans stored⟩
      snapshots := by
        refine List.rel_append (keeps_of_agrees kept fun ckpt listed => ?_)
          (.cons ⟨rfl, tagShort, newStored⟩ .nil)
        have old := rec.keptCheckpoints_sublist.subset listed
        exact stays ckpt.filepath
          (List.mem_append_right _ (List.mem_map_of_mem old))
          (snapshots ckpt old).2.1
          (FileRecord.keptCheckpoints_apart snapshotPaths listed) }

/-- A rename: the files go along, or stay if they are snapshots. -/
theorem moved
    (now : Int)
    {storagePath newLogical : CString}
    (short : storagePath.length ≤ maxTagLength)
    (nameShort : newLogical.length < maxFilenameLength)
    (placed : rec.WellPlaced storagePath)
    (undisturbed : disk.outcomes = [])
    (clear :
      contentPath storagePath newLogical ∉ [rec.metapath, rec.undopath])
    (notSnapshot :
      ∀ path ∈ namedPaths storagePath newLogical,
        path ∉ rec.checkpoints.map CheckpointRecord.filepath)
    (description : RawBytes) :
    (rec.movedTo storagePath newLogical now).Carries
      (movedDisk disk rec.filepath (contentPath storagePath newLogical)
        rec.metapath (contentPath storagePath newLogical ++ ssMetaSuffix)
        rec.undopath (contentPath storagePath newLogical ++ ssUndoSuffix)
        description)
      doc := by
  obtain ⟨⟨_, contentUndo, metaUndo⟩, snapshots⟩ :=
    FileRecord.own_apart nodup
  obtain ⟨newPlaced, _⟩ := paths_renamed short nameShort now rec
  have named :
      (rec.movedTo storagePath newLogical now).filename = newLogical :=
    safeStrcpy_of_short nameShort
  have newContent :
      (rec.movedTo storagePath newLogical now).filepath =
        contentPath storagePath newLogical := by
    rw [FileRecord.movedTo, newPlaced.filepath_eq]
    exact congrArg _ named
  have newUndo :
      (rec.movedTo storagePath newLogical now).undopath =
        contentPath storagePath newLogical ++ ssUndoSuffix := by
    rw [← newContent]
    exact newPlaced.undopath_eq
  have metaNonempty : ssMetaSuffix ≠ [] := by decide
  have undoNonempty : ssUndoSuffix ≠ [] := by decide
  simp only [List.mem_cons, List.not_mem_nil, or_false, not_or] at clear
  exact
    { content := by
        rw [newContent]
        refine bytesAt_movedDisk_content undisturbed carries.content ?_ _
        simp [clear.1, clear.2, metaNonempty, undoNonempty]
      previous_none := carries.previous_none
      previous_some := by
        intro available
        obtain ⟨text, isText, stored⟩ := carries.previous_some available
        refine ⟨text, isText, ?_⟩
        rw [newUndo]
        refine bytesAt_movedDisk_snapshot undisturbed stored ?_
          (append_meta_ne_append_undo _ _).symm _
        simp only [List.mem_cons, List.not_mem_nil, or_false, not_or]
        refine ⟨contentUndo.symm, Ne.symm clear.2, metaUndo.symm, ?_⟩
        rw [placed.undopath_eq]
        exact (append_meta_ne_append_undo _ _).symm
      snapshots := by
        refine keeps_of_agrees carries.snapshots fun ckpt listed => ?_
        obtain ⟨notContent, notMeta, notUndo⟩ := snapshots ckpt listed
        have isSnapshot :
            ckpt.filepath ∈ rec.checkpoints.map CheckpointRecord.filepath :=
          List.mem_map_of_mem listed
        have notNamed :
            ckpt.filepath ∉ namedPaths storagePath newLogical :=
          fun isNew => notSnapshot _ isNew isSnapshot
        simp only [namedPaths, List.mem_cons, List.not_mem_nil, or_false,
          not_or] at notNamed
        apply (agreesOutside_movedDisk description).bytesAt_eq
        simp only [List.mem_cons, List.not_mem_nil, or_false, not_or]
        exact ⟨notContent, notNamed.1, notMeta, notNamed.2.1, notUndo,
          notNamed.2.2⟩ }

end FileRecord.Carries

/-! ## The documents of a server -/

/-- Records and files make up the documents, each under its name. -/
structure MakesUp (ss : StorageServer) (store : Documents) : Prop where
  stored :
    ∀ rec ∈ ss.files, ∃ doc,
      store rec.filename = some doc ∧ rec.Carries ss.disk doc
  named :
    ∀ name, (store name).isSome = true →
      ∃ rec ∈ ss.files, rec.filename = name

/-- A working server whose documents are those of the store. -/
structure Represents
    (ss : StorageServer)
    (store : Documents) : Prop extends
    PathsApart ss, MakesUp ss store where
  undisturbed : ss.disk.outcomes = []
  avoids_nul : ss.disk.Avoids 0

/-- Records with the same name are the same one. -/
theorem PathsApart.eq_of_filename
    {ss : StorageServer}
    (apart : PathsApart ss)
    {r q : FileRecord}
    (rPresent : r ∈ ss.files)
    (qPresent : q ∈ ss.files)
    (sameName : r.filename = q.filename) :
    r = q := by
  by_cases same : r.address = q.address
  · exact eq_of_address apart.addresses_nodup rPresent qPresent same
  · have samePath : r.filepath = q.filepath := by
      rw [(apart.wellPlaced r rPresent).filepath_eq,
        (apart.wellPlaced q qPresent).filepath_eq, sameName]
    have shared :=
      apart.paths_disjoint r rPresent q qPresent same
        (by simp [FileRecord.paths] : r.filepath ∈ r.paths)
    exact absurd (by simp [FileRecord.paths, samePath]) shared

/-- A record is found under its name. -/
theorem PathsApart.ssFindFile_eq
    {ss : StorageServer}
    (apart : PathsApart ss)
    {rec : FileRecord}
    (present : rec ∈ ss.files) :
    ssFindFile ss.files rec.filename = some rec := by
  cases found : ssFindFile ss.files rec.filename with
  | none =>
      rw [ssFindFile, List.find?_eq_none] at found
      exact absurd (by simp [strncmpEq]) (found rec present)
  | some r =>
      obtain ⟨rPresent, sameName⟩ := ssFindFile_filename found
      rw [apart.eq_of_filename rPresent present sameName]

namespace Represents

variable
  {ss after : StorageServer}
  {store : Documents}
  (represents : Represents ss store)

include represents

/-- The server has a record exactly for the documents of the store. -/
theorem ssFindFile_isSome (filename : CString) :
    (ssFindFile ss.files filename).isSome = (store filename).isSome := by
  cases found : ssFindFile ss.files filename with
  | some rec =>
      obtain ⟨present, rfl⟩ := ssFindFile_filename found
      obtain ⟨doc, isDoc, _⟩ := represents.stored rec present
      rw [isDoc, Option.isSome_some, Option.isSome_some]
  | none =>
      cases isDoc : store filename with
      | none => rfl
      | some doc =>
          obtain ⟨rec, present, rfl⟩ :=
            represents.named filename (by rw [isDoc, Option.isSome_some])
          rw [represents.ssFindFile_eq present] at found
          cases found

/-- What the records and files make up is determined by them. -/
theorem unique
    {other : Documents}
    (alsoOther : Represents ss other) :
    store = other := by
  funext filename
  have sameNames :=
    (represents.ssFindFile_isSome filename).symm.trans
      (alsoOther.ssFindFile_isSome filename)
  cases isDoc : store filename with
  | none =>
      rw [isDoc, Option.isSome_none] at sameNames
      exact (Option.isSome_eq_false_iff.mp sameNames.symm |>
        Option.isNone_iff_eq_none.mp).symm
  | some doc =>
      obtain ⟨rec, present, rfl⟩ :=
        represents.named filename (by rw [isDoc, Option.isSome_some])
      obtain ⟨found, isFound, carries⟩ := represents.stored rec present
      obtain ⟨again, isAgain, carriesToo⟩ := alsoOther.stored rec present
      rw [← isDoc, isFound, isAgain, carries.unique carriesToo]

/-- The records stay, and so do the files they use. -/
theorem of_same
    (files : after.files = ss.files)
    (agrees :
      ∀ path ∈ pathsInUse ss.files,
        after.disk.bytesAt path = ss.disk.bytesAt path) :
    MakesUp after store where
  stored := by
    rw [files]
    intro rec present
    obtain ⟨doc, isDoc, carries⟩ := represents.stored rec present
    exact ⟨doc, isDoc, carries.of_agrees fun path own =>
      agrees path (List.mem_flatMap.mpr ⟨rec, present, own⟩)⟩
  named := by
    rw [files]
    exact represents.named

/-- One document is another one now, perhaps under another name. -/
theorem of_stored
    {rec changed : FileRecord}
    {doc : Document}
    (present : rec ∈ ss.files)
    (files : after.files = storeRecord changed ss.files)
    (address : changed.address = rec.address)
    (others :
      ∀ q ∈ ss.files, q.address ≠ rec.address →
        q.filename ≠ changed.filename ∧
          ∀ path ∈ q.paths, after.disk.bytesAt path = ss.disk.bytesAt path)
    (carries : changed.Carries after.disk doc) :
    MakesUp after
      (writeAt [(rec.filename, none), (changed.filename, some doc)]
        store) where
  stored := by
    rw [files]
    intro r listed
    rcases mem_storeRecord listed with ⟨old, other⟩ | rfl
    · obtain ⟨notNew, agrees⟩ := others r old (address ▸ other)
      obtain ⟨kept, isKept, carriesToo⟩ := represents.stored r old
      have notOld : r.filename ≠ rec.filename := fun sameName =>
        other (address ▸
          congrArg _ (represents.eq_of_filename old present sameName))
      refine ⟨kept, ?_, carriesToo.of_agrees agrees⟩
      rw [writeAt_of_not_mem (by simp [notNew, notOld]), isKept]
    · exact ⟨doc, by simp, carries⟩
  named := by
    rw [files]
    intro name isNamed
    have listed : changed ∈ storeRecord changed ss.files :=
      List.mem_map.mpr ⟨rec, present, if_pos address.symm⟩
    by_cases isNew : name = changed.filename
    · exact ⟨changed, listed, isNew.symm⟩
    · by_cases isOld : name = rec.filename
      · rw [writeAt_cons, writeAt_cons, writeAt_nil,
          Function.update_of_ne isNew, isOld, Function.update_self] at isNamed
        cases isNamed
      · rw [writeAt_of_not_mem (by simp [isNew, isOld])] at isNamed
        obtain ⟨r, old, rfl⟩ := represents.named name isNamed
        refine ⟨r, (mem_storeRecord_of_ne fun same => isOld ?_).mpr old, rfl⟩
        rw [eq_of_address represents.addresses_nodup old present
          (same.trans address)]

/-- A document is another one under the name it had. -/
theorem of_changed
    {rec changed : FileRecord}
    {doc : Document}
    (present : rec ∈ ss.files)
    (files : after.files = storeRecord changed ss.files)
    (address : changed.address = rec.address)
    (filename : changed.filename = rec.filename)
    (others :
      ∀ q ∈ ss.files, q.address ≠ rec.address →
        ∀ path ∈ q.paths, after.disk.bytesAt path = ss.disk.bytesAt path)
    (carries : changed.Carries after.disk doc) :
    MakesUp after (writeAt [(rec.filename, some doc)] store) := by
  have made :=
    represents.of_stored present files address
      (fun q listed other =>
        ⟨fun sameName => other (congrArg _
            (represents.eq_of_filename listed present
              (sameName.trans filename))),
          others q listed other⟩)
      carries
  rwa [filename, writeAt_cons, writeAt_cons, Function.update_idem] at made

end Represents

end DistributedDocs
