import DistributedDocs.StorageControl

namespace DistributedDocs

/-!
# The names of a storage server

Which logical names a server has records of, and what every request and every
command of a client makes of them.  A request that is refused leaves the names
as they are.
-/

/-- The logical names a server has records of. -/
def recordNames (ss : StorageServer) : List CString :=
  ss.files.map FileRecord.filename

/-- Every record is in its place, and no two have the same name. -/
structure NamesApart (ss : StorageServer) : Prop extends RecordsPlaced ss where
  names_nodup : (recordNames ss).Nodup

theorem ssFindFile_isSome_iff
    {files : List FileRecord}
    {filename : CString} :
    (ssFindFile files filename).isSome = true ↔
      filename ∈ files.map FileRecord.filename := by
  rw [ssFindFile, List.find?_isSome, List.mem_map]
  refine exists_congr fun rec => and_congr_right fun _ => ?_
  exact strncmpEq_iff rec.filename_short

/-! ## Steps that keep the names -/

/-- A record stored over one of the same name keeps the names. -/
theorem names_storeRecord
    {files : List FileRecord}
    (addresses : (files.map FileRecord.address).Nodup)
    {rec r : FileRecord}
    (present : rec ∈ files)
    (same : r.address = rec.address) :
    (storeRecord r files).map FileRecord.filename =
      files.map fun node =>
        if node = rec then r.filename else node.filename := by
  rw [storeRecord, List.map_map]
  refine List.map_congr_left fun node member => ?_
  simp only [Function.comp_apply]
  by_cases here : node = rec
  · rw [if_pos here, here, if_pos same.symm]
  · have elsewhere : node.address ≠ r.address := fun there =>
      here (eq_of_address addresses member present (there.trans same))
    rw [if_neg here, if_neg elsewhere]

theorem names_of_kept
    {files : List FileRecord}
    (addresses : (files.map FileRecord.address).Nodup)
    {rec r : FileRecord}
    (present : rec ∈ files)
    (same : r.address = rec.address)
    (named : r.filename = rec.filename) :
    (storeRecord r files).map FileRecord.filename =
      files.map FileRecord.filename := by
  rw [names_storeRecord addresses present same]
  refine List.map_congr_left fun node _ => ?_
  split
  · next here => rw [here, named]
  · rfl

/-- A handler whose record keeps its name keeps all names. -/
theorem names_of_effect
    {scope : Scope}
    {before after : StorageServer}
    (placed : RecordsPlaced before)
    (effect : Effect scope before after)
    (keeps :
      ∀ r, scope.allowed r →
        ∃ rec ∈ before.files,
          rec.address = scope.target ∧ r.filename = rec.filename) :
    recordNames after = recordNames before := by
  rcases effect.files_stored with kept | ⟨r, atTarget, allowed, stored⟩
  · rw [recordNames, kept, recordNames]
  · obtain ⟨rec, present, isTarget, named⟩ := keeps r allowed
    rw [recordNames, stored]
    exact names_of_kept placed.addresses_nodup present
      (atTarget.trans isTarget.symm) named

/-- Every command but a rename keeps the name of the record it works on. -/
theorem keepsName_of_allowed
    {ss : StorageServer}
    {event : SsEvent}
    (noRename : ∀ old new, event.command ≠ .ssRename old new)
    {r : FileRecord}
    (allowed : (eventScope ss event).allowed r) :
    ∃ rec ∈ ss.files,
      rec.address = (eventScope ss event).target ∧
        r.filename = rec.filename := by
  have shape := eventScope_spec ss event
  have notFreed : freedPaths ss event = [] := by
    unfold freedPaths
    split
    · next old new isRename => exact absurd isRename (noRename old new)
    · rfl
  generalize eventScope ss event = scope at shape allowed ⊢
  cases shape with
  | idle keepsSessions =>
      exact False.elim allowed
  | content keepsSessions present subject =>
      exact ⟨_, present, rfl, FileRecord.KeepsNames.filename_eq allowed⟩
  | checkpoint present subject built taken freed =>
      exact ⟨_, present, rfl, FileRecord.KeepsNames.filename_eq allowed⟩
  | rename present subject nameShort taken freed =>
      rw [notFreed] at freed
      cases freed
  | copy present subject taken freed =>
      exact ⟨_, present, rfl, FileRecord.KeepsNames.filename_eq allowed⟩

namespace NamesApart

variable {ss : StorageServer}

/-- A step that keeps the names keeps them apart. -/
theorem of_names
    (apart : NamesApart ss)
    {after : StorageServer}
    (placed : RecordsPlaced after)
    (same : recordNames after = recordNames ss) :
    NamesApart after :=
  ⟨placed, same ▸ apart.names_nodup⟩

/-- No command of a client changes the names, and neither does a copy. -/
theorem step
    (apart : NamesApart ss)
    {event : SsEvent}
    (keepsRecords : event.command.changesRecords = false)
    (noRename : ∀ old new, event.command ≠ .ssRename old new) :
    NamesApart (ssStep ss event) ∧
      recordNames (ssStep ss event) = recordNames ss := by
  have same :=
    names_of_effect apart.toRecordsPlaced (ssStep_effect ss event keepsRecords)
      fun _ allowed => keepsName_of_allowed noRename allowed
  exact ⟨apart.of_names (apart.toRecordsPlaced.ssStep event) same, same⟩

/-- What the disk will do has no part in it. -/
theorem withOutcomes
    (apart : NamesApart ss)
    (outcomes : List Outcome) :
    NamesApart { ss with disk := { ss.disk with outcomes := outcomes } } :=
  ⟨⟨apart.addresses_nodup, apart.addresses_lt, apart.wellPlaced⟩,
    apart.names_nodup⟩

theorem newServer
    (storagePath : {path : CString // path.length ≤ maxTagLength}) :
    NamesApart (DistributedDocs.newServer storagePath) :=
  ⟨recordsPlaced_of_no_files rfl, List.nodup_nil⟩

end NamesApart

/-! ## The requests -/

/-- A request that reaches a handler ends as a step of the server does. -/
theorem snd_replyOf
    (ss : StorageServer)
    (event : SsEvent)
    (fromNameServer : event.command.sender = .nameServer) :
    (replyOf (event.handler ss)).2 = ssStep ss event := by
  unfold ssStep
  cases event.handler ss with
  | ok value after =>
      simp only [replyOf]
      split <;> rfl
  | error refusal after =>
      rw [fromNameServer]
      rfl

/-- An answer that is an error message. -/
def isRefusal : SsAnswer → Bool
  | .message (type :: _) => type = str "ERR"
  | _ => false

@[simp] theorem isRefusal_fields (refusal : Refusal) :
    isRefusal (.message refusal.fields) = true := by
  simp [isRefusal, Refusal.fields]

theorem answerRequest_createFile
    (now : Int)
    (peer : PeerSession)
    (filename owner : CString)
    (ss : StorageServer) :
    answerRequest now peer [str "CREATE_FILE", filename, owner] ss =
      replyOf (nsCreateFile now [str "CREATE_FILE", filename, owner] ss) :=
  rfl

theorem answerRequest_deleteFile
    (now : Int)
    (peer : PeerSession)
    (filename : CString)
    (ss : StorageServer) :
    answerRequest now peer [str "DELETE_FILE", filename] ss =
      replyOf (nsDeleteFile [str "DELETE_FILE", filename] ss) := by
  have other : str "DELETE_FILE" ≠ str "CREATE_FILE" := by decide
  simp only [answerRequest, controlHandler, other, ↓reduceIte]

theorem answerRequest_rename
    (now : Int)
    (peer : PeerSession)
    (oldLogical newLogical : CString)
    (ss : StorageServer) :
    answerRequest now peer (ssRenameMessage oldLogical newLogical) ss =
      replyOf (nsRename now (ssRenameMessage oldLogical newLogical) ss) := by
  have notCreate : str "SS_RENAME" ≠ str "CREATE_FILE" := by decide
  have notDelete : str "SS_RENAME" ≠ str "DELETE_FILE" := by decide
  have notStats : str "SS_RENAME" ≠ str "GET_STATS" := by decide
  have notContent : str "SS_RENAME" ≠ str "GET_CONTENT" := by decide
  simp only [answerRequest, controlHandler, ssRenameMessage, notCreate,
    notDelete, notStats, notContent, ↓reduceIte]

theorem answerRequest_copy
    (now : Int)
    (peer : PeerSession)
    (arguments : List CString)
    (ss : StorageServer) :
    answerRequest now peer (str "SS_COPY" :: arguments) ss =
      replyOf (handleSsCopy now peer (str "SS_COPY" :: arguments) ss) := by
  have notCreate : str "SS_COPY" ≠ str "CREATE_FILE" := by decide
  have notDelete : str "SS_COPY" ≠ str "DELETE_FILE" := by decide
  have notStats : str "SS_COPY" ≠ str "GET_STATS" := by decide
  have notContent : str "SS_COPY" ≠ str "GET_CONTENT" := by decide
  have notRename : str "SS_COPY" ≠ str "SS_RENAME" := by decide
  have notAdd : str "SS_COPY" ≠ str "SS_ADDACCESS" := by decide
  have notRemove : str "SS_COPY" ≠ str "SS_REMACCESS" := by decide
  simp only [answerRequest, controlHandler, notCreate, notDelete, notStats,
    notContent, notRename, notAdd, notRemove, ↓reduceIte]

/-! ### Creating -/

/-- The end of a `CREATE_FILE` for a name that is not in use. -/
theorem nsCreateFile_ends
    {ss : StorageServer}
    (now : Int)
    {filename : CString}
    (owner : CString)
    (free : filename ∉ recordNames ss) :
    (∃ refusal after,
      nsCreateFile now [str "CREATE_FILE", filename, owner] ss =
          .error refusal after ∧
        after.files = ss.files) ∨
      ∃ (newRecord : FileRecord) (after : StorageServer),
        nsCreateFile now [str "CREATE_FILE", filename, owner] ss =
            .ok () after ∧
          after.sent.getLast? =
              some ⟨.nameServer, [str "OK_CREATE", filename]⟩ ∧
            newRecord.filename = filename ∧
              after.files = newRecord :: ss.files := by
  have absent : (ssFindFile ss.files filename).isSome = false := by
    rw [Bool.eq_false_iff, ne_eq, ssFindFile_isSome_iff]
    exact free
  simp only [nsCreateFile, bind_apply, ensure_apply]
  by_cases valid :
      (validateFilename filename && validateUsername owner) = true
  · have named : (newFileRecord ss now filename owner).filename = filename :=
      safeStrcpy_of_short
        (length_of_validateFilename (Bool.and_eq_true_iff.mp valid).1)
    obtain ⟨middle, effect, ended⟩ :=
      addRecord_effect (newFileRecord ss now filename owner) ss
    have filesKept : middle.files = ss.files :=
      effect.files_eq_of_allows_nothing fun _ => id
    simp only [valid, ↓reduceIte, ssCreateFile, bind_apply, get_apply,
      absent, Bool.false_eq_true]
    rcases ended with failed | stored
    · simp only [failed, Bool.false_eq_true, ↓reduceIte, refuse_apply]
      exact Or.inl ⟨_, _, rfl, filesKept⟩
    · simp only [stored, ↓reduceIte, send_apply]
      refine Or.inr ⟨_, _, rfl, List.getLast?_concat, named, ?_⟩
      exact congrArg (List.cons _) filesKept
  · simp only [valid, Bool.false_eq_true, ↓reduceIte, refuse_apply]
    exact Or.inl ⟨_, _, rfl, rfl⟩

/-- A file is created, or the request is refused and the names stay. -/
theorem NamesApart.createFile
    {ss : StorageServer}
    (apart : NamesApart ss)
    (now : Int)
    (peer : PeerSession)
    {filename : CString}
    (owner : CString)
    (free : filename ∉ recordNames ss) :
    let ended := answerRequest now peer [str "CREATE_FILE", filename, owner] ss
    NamesApart ended.2 ∧
      (isRefusal ended.1 = true ∧ recordNames ended.2 = recordNames ss ∨
        ended.1 = .message [str "OK_CREATE", filename] ∧
          recordNames ended.2 = filename :: recordNames ss) := by
  intro ended
  have placed : RecordsPlaced ended.2 := by
    have stepped :
        ended.2 =
          ssStep ss
            ⟨now, .createFile [str "CREATE_FILE", filename, owner]⟩ :=
      snd_replyOf ss ⟨now, .createFile [str "CREATE_FILE", filename, owner]⟩
        rfl
    rw [stepped]
    exact apart.toRecordsPlaced.ssStep _
  have answered :
      ended =
        replyOf
          (nsCreateFile now [str "CREATE_FILE", filename, owner] ss) :=
    answerRequest_createFile now peer filename owner ss
  rcases nsCreateFile_ends now owner free with
    ⟨refusal, after, failed, files⟩ |
    ⟨newRecord, after, made, sent, named, files⟩
  · rw [failed] at answered
    have same : recordNames ended.2 = recordNames ss := by
      rw [answered]
      exact congrArg (List.map FileRecord.filename) files
    refine ⟨apart.of_names placed same, Or.inl ⟨?_, same⟩⟩
    rw [answered]
    exact isRefusal_fields refusal
  · rw [made] at answered
    simp only [replyOf, sent] at answered
    have grown : recordNames ended.2 = filename :: recordNames ss := by
      rw [answered, recordNames, files, List.map_cons, named, recordNames]
    refine ⟨⟨placed, ?_⟩, Or.inr ⟨congrArg Prod.fst answered, grown⟩⟩
    rw [grown, List.nodup_cons]
    exact ⟨free, apart.names_nodup⟩

/-! ### Deleting -/

/-- Whether somebody is writing to the file of a name. -/
def isWriteLocked (ss : StorageServer) (filename : CString) : Bool :=
  (ssFindFile ss.files filename).any fun node =>
    ssFileHasActiveWriters ss.sessions node.address

/-- Whether `DELETE_FILE` is refused for a file the server has. -/
def refusesDelete (ss : StorageServer) (filename : CString) : Bool :=
  !validateFilename filename || isWriteLocked ss filename

/-- The end of a `DELETE_FILE` for a file the server has. -/
theorem nsDeleteFile_ends
    {ss : StorageServer}
    {filename : CString}
    (held : filename ∈ recordNames ss) :
    if refusesDelete ss filename then
      ∃ refusal,
        nsDeleteFile [str "DELETE_FILE", filename] ss = .error refusal ss
    else
      ∃ (node : FileRecord) (after : StorageServer),
        ssFindFile ss.files filename = some node ∧
          nsDeleteFile [str "DELETE_FILE", filename] ss = .ok () after ∧
            after.sent.getLast? =
                some ⟨.nameServer, [str "OK_DELETE", filename]⟩ ∧
              after.files =
                ss.files.eraseP fun r => r.address = node.address := by
  obtain ⟨node, found⟩ :=
    Option.isSome_iff_exists.mp (ssFindFile_isSome_iff.mpr held)
  simp only [refusesDelete, isWriteLocked, found, Option.any_some,
    nsDeleteFile, ssDeleteFile, bind_apply, ensure_apply]
  by_cases valid : validateFilename filename = true
  · by_cases busy : ssFileHasActiveWriters ss.sessions node.address = true
    · simp [valid, busy, found]
    · obtain ⟨middle, effect, removed⟩ := removeRecord_effect node ss
      have filesKept : middle.files = ss.files :=
        effect.files_eq_of_allows_nothing fun _ => id
      simp only [valid, busy, Bool.not_true, Bool.or_self,
        Bool.false_eq_true, ↓reduceIte, get_apply, found, bind_apply,
        removed, pure_apply, send_apply]
      exact ⟨node, _, rfl, rfl, List.getLast?_concat, by rw [filesKept]⟩
  · simp [valid]

theorem eraseP_congr
    {α : Type*}
    {p q : α → Bool}
    {items : List α}
    (same : ∀ item ∈ items, p item = q item) :
    items.eraseP p = items.eraseP q := by
  induction items with
  | nil =>
      rfl
  | cons item rest inductionHypothesis =>
      have later := inductionHypothesis fun other member =>
        same other (List.mem_cons_of_mem _ member)
      rw [List.eraseP_cons, List.eraseP_cons, same item (by simp), later]

/-- The names left when the record of a name is removed. -/
theorem NamesApart.names_eraseP
    {ss : StorageServer}
    (apart : NamesApart ss)
    {filename : CString}
    {node : FileRecord}
    (found : ssFindFile ss.files filename = some node) :
    (ss.files.eraseP fun r => r.address = node.address).map
        FileRecord.filename =
      (recordNames ss).erase filename := by
  obtain ⟨present, named⟩ := ssFindFile_filename found
  have sameTest :
      ss.files.eraseP (fun r => r.address = node.address) =
        ss.files.eraseP ((filename == ·) ∘ FileRecord.filename) := by
    refine eraseP_congr fun r member => ?_
    rw [Bool.eq_iff_iff, decide_eq_true_eq, Function.comp_apply, beq_iff_eq]
    constructor
    · intro there
      rw [eq_of_address apart.addresses_nodup member present there, named]
    · intro same
      have isNode : r = node :=
        List.inj_on_of_nodup_map apart.names_nodup member present
          (same.symm.trans named.symm)
      rw [isNode]
  rw [sameTest, recordNames, List.erase_eq_eraseP, List.eraseP_map]

/-- A file is deleted unless it is refused; then the names stay. -/
theorem NamesApart.deleteFile
    {ss : StorageServer}
    (apart : NamesApart ss)
    (now : Int)
    (peer : PeerSession)
    {filename : CString}
    (held : filename ∈ recordNames ss) :
    let ended := answerRequest now peer [str "DELETE_FILE", filename] ss
    NamesApart ended.2 ∧
      if refusesDelete ss filename then
        isRefusal ended.1 = true ∧ recordNames ended.2 = recordNames ss
      else
        ended.1 = .message [str "OK_DELETE", filename] ∧
          recordNames ended.2 = (recordNames ss).erase filename := by
  intro ended
  have answered :
      ended = replyOf (nsDeleteFile [str "DELETE_FILE", filename] ss) :=
    answerRequest_deleteFile now peer filename ss
  have placed : RecordsPlaced ended.2 := by
    have stepped :=
      snd_replyOf ss ⟨now, .deleteFile [str "DELETE_FILE", filename]⟩ rfl
    rw [answered]
    exact stepped ▸ apart.toRecordsPlaced.ssStep _
  have shape := nsDeleteFile_ends held
  by_cases refuses : refusesDelete ss filename = true
  · rw [if_pos refuses] at shape ⊢
    obtain ⟨refusal, failed⟩ := shape
    rw [failed] at answered
    have same : recordNames ended.2 = recordNames ss := by
      rw [answered]
      rfl
    refine ⟨apart.of_names placed same, ?_, same⟩
    rw [answered]
    exact isRefusal_fields refusal
  · rw [if_neg refuses] at shape ⊢
    obtain ⟨node, after, found, deleted, sent, files⟩ := shape
    rw [deleted] at answered
    simp only [replyOf, sent] at answered
    have left : recordNames ended.2 = (recordNames ss).erase filename := by
      rw [answered, ← apart.names_eraseP found, recordNames, files]
    refine ⟨⟨placed, ?_⟩, congrArg Prod.fst answered, left⟩
    rw [left]
    exact apart.names_nodup.erase filename

/-! ### Renaming -/

/-- Whether `SS_RENAME` is refused for a file the server has. -/
def refusesRename
    (ss : StorageServer)
    (oldLogical newLogical : CString) : Bool :=
  !(validateFilename oldLogical && validateFilename newLogical) ||
    !(ss.disk.rename (contentPath ss.storagePath oldLogical)
      (contentPath ss.storagePath newLogical)).1

/-- The end of an `SS_RENAME` for a file the server has. -/
theorem nsRename_ends
    {ss : StorageServer}
    (now : Int)
    {oldLogical newLogical : CString}
    (held : oldLogical ∈ recordNames ss) :
    if refusesRename ss oldLogical newLogical then
      ∃ refusal after,
        nsRename now (ssRenameMessage oldLogical newLogical) ss =
            .error refusal after ∧
          (renameFailure (.message refusal.fields)).isSome = true ∧
            after.files = ss.files
    else
      ∃ (rec r : FileRecord) (after : StorageServer),
        ssFindFile ss.files oldLogical = some rec ∧
          nsRename now (ssRenameMessage oldLogical newLogical) ss =
              .ok () after ∧
            after.sent.getLast? = some ⟨.nameServer, [str "OK"]⟩ ∧
              r.address = rec.address ∧ r.filename = newLogical ∧
                after.files = storeRecord r ss.files := by
  obtain ⟨rec, found⟩ :=
    Option.isSome_iff_exists.mp (ssFindFile_isSome_iff.mpr held)
  simp only [refusesRename, nsRename, ssRenameMessage]
  rw [bind_apply]
  simp only [ensure_apply]
  by_cases valid :
      (validateFilename oldLogical && validateFilename newLogical) = true
  · obtain ⟨oldValid, newValid⟩ := Bool.and_eq_true_iff.mp valid
    have oldShort := length_of_validateFilename oldValid
    have newShort := length_of_validateFilename newValid
    simp only [valid, Bool.not_true, Bool.false_or, ↓reduceIte]
    rw [bind_apply, ssHandleRename_apply now oldShort, found]
    simp only [renameRecord, rename, bind_apply, onDisk_apply]
    generalize ss.disk.rename (contentPath ss.storagePath oldLogical)
      (contentPath ss.storagePath newLogical) = moved
    obtain ⟨done, disk⟩ := moved
    cases done with
    | false =>
        simp only [Bool.not_false, ↓reduceIte, Bool.false_eq_true,
          pure_apply, ensure_apply, refuse_apply]
        exact ⟨_, _, rfl, by decide, rfl⟩
    | true =>
        simp only [Bool.not_true, Bool.false_eq_true, ↓reduceIte,
          ssTouchFileMetadata, ssWriteMetadata, bind_apply, onDisk_apply,
          modify_apply, pure_apply, ensure_apply, send_apply]
        refine ⟨rec, _, _, rfl, rfl, List.getLast?_concat, ?_, ?_, rfl⟩
        · rfl
        · exact safeStrcpy_of_short newShort
  · simp only [valid, Bool.not_false, Bool.true_or, ↓reduceIte,
      Bool.false_eq_true, refuse_apply]
    exact ⟨_, _, rfl, by decide, rfl⟩

/-- The file has its new name, or the request is refused and the names stay. -/
theorem NamesApart.rename
    {ss : StorageServer}
    (apart : NamesApart ss)
    (now : Int)
    (peer : PeerSession)
    {oldLogical newLogical : CString}
    (held : oldLogical ∈ recordNames ss)
    (free : newLogical ∉ recordNames ss) :
    let ended := answerRequest now peer (ssRenameMessage oldLogical newLogical) ss
    NamesApart ended.2 ∧
      if refusesRename ss oldLogical newLogical then
        (renameFailure ended.1).isSome = true ∧
          recordNames ended.2 = recordNames ss
      else
        ended.1 = .message [str "OK"] ∧
          recordNames ended.2 =
            (recordNames ss).map fun name =>
              if name = oldLogical then newLogical else name := by
  intro ended
  have answered :
      ended =
        replyOf (nsRename now (ssRenameMessage oldLogical newLogical) ss) :=
    answerRequest_rename now peer oldLogical newLogical ss
  have placed : RecordsPlaced ended.2 := by
    have stepped :=
      snd_replyOf ss ⟨now, .ssRename oldLogical newLogical⟩ rfl
    rw [answered]
    exact stepped ▸ apart.toRecordsPlaced.ssStep _
  have shape := @nsRename_ends ss now oldLogical newLogical held
  by_cases refuses : refusesRename ss oldLogical newLogical = true
  · rw [if_pos refuses] at shape ⊢
    obtain ⟨refusal, after, failed, isFailure, files⟩ := shape
    rw [failed] at answered
    have same : recordNames ended.2 = recordNames ss := by
      rw [answered]
      exact congrArg (List.map FileRecord.filename) files
    refine ⟨apart.of_names placed same, ?_, same⟩
    rw [answered]
    exact isFailure
  · rw [if_neg refuses] at shape ⊢
    obtain ⟨rec, r, after, found, renamed, sent, sameAddress, named, files⟩ :=
      shape
    obtain ⟨present, wasNamed⟩ := ssFindFile_filename found
    rw [renamed] at answered
    simp only [replyOf, sent] at answered
    have names :
        recordNames ended.2 =
          (recordNames ss).map fun name =>
            if name = oldLogical then newLogical else name := by
      rw [answered, recordNames, files,
        names_storeRecord apart.addresses_nodup present sameAddress,
        recordNames, List.map_map]
      refine List.map_congr_left fun node member => ?_
      simp only [Function.comp_apply]
      by_cases isRec : node = rec
      · rw [if_pos isRec, isRec, if_pos wasNamed, named]
      · have otherName : node.filename ≠ oldLogical := fun same =>
          isRec (List.inj_on_of_nodup_map apart.names_nodup member present
            (same.trans wasNamed.symm))
        rw [if_neg isRec, if_neg otherName]
    refine ⟨⟨placed, ?_⟩, congrArg Prod.fst answered, names⟩
    rw [names]
    refine apart.names_nodup.map_on ?_
    intro first firstHeld second secondHeld same
    split at same <;> split at same
    · next isOld alsoOld => rw [isOld, alsoOld]
    · exact absurd (same ▸ secondHeld) free
    · exact absurd (same ▸ firstHeld) free
    · exact same

/-! ### Copying -/

/-- A copy keeps the names, however it ends. -/
theorem NamesApart.copy
    {ss : StorageServer}
    (apart : NamesApart ss)
    (now : Int)
    (peer : PeerSession)
    (arguments : List CString) :
    let ended := answerRequest now peer (str "SS_COPY" :: arguments) ss
    NamesApart ended.2 ∧ recordNames ended.2 = recordNames ss := by
  intro ended
  have stepped :
      ended.2 =
        ssStep ss ⟨now, .ssCopy peer (str "SS_COPY" :: arguments)⟩ := by
    rw [← snd_replyOf ss ⟨now, .ssCopy peer (str "SS_COPY" :: arguments)⟩ rfl]
    exact congrArg Prod.snd (answerRequest_copy now peer arguments ss)
  rw [stepped]
  exact apart.step rfl nofun

end DistributedDocs
