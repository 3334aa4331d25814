import DistributedDocs.FileAnnouncement
import DistributedDocs.StorageNames

namespace DistributedDocs

/-!
# Registration

What a storage server announces goes over the wire and into the file table.
Afterwards the name server says of every announced file what its storage server
says, also where the storage server has read its records back from its
directory.
-/

/-! ## Messages that arrive -/

/-- A message that arrives as it was sent. -/
structure Deliverable (fields : List CString) : Prop where
  nonempty : fields ≠ []
  plain : ∀ field ∈ fields, PlainField field
  few : fields.length ≤ maxFields
  short : ¬TooLong (List.intercalate [protocolDelimiter] fields)

/-- Such messages arrive one after another. -/
theorem receivedMessages_flatMap
    {messages : List (List CString)}
    (deliverable : ∀ fields ∈ messages, Deliverable fields) :
    receivedMessages (messages.flatMap protocolBuildMessage) = messages := by
  induction messages with
  | nil =>
      rfl
  | cons fields rest inductionHypothesis =>
      rw [List.forall_mem_cons] at deliverable
      obtain ⟨⟨nonempty, plain, few, short⟩, deliverableRest⟩ := deliverable
      have oneLine :
          newline ∉ List.intercalate [protocolDelimiter] fields := by
        intro member
        rcases mem_intercalate member with
          isDelimiter | ⟨field, listed, inField⟩
        · exact absurd isDelimiter (by decide)
        · exact (plain field listed).2 inField
      rw [List.flatMap_cons, protocolBuildMessage, List.append_assoc,
        List.singleton_append, receivedMessages_line oneLine, if_neg short,
        inductionHypothesis deliverableRest, fieldsOf,
        splitOnP_intercalate protocolDelimiter nonempty
          (fun field listed => (plain field listed).1),
        List.take_of_length_le few]

/-! ## What is announced of a record -/

theorem RestorableUsers.csv_fits
    {label : CString}
    {users : List CString}
    (restorable : RestorableUsers label users) :
    (csv users).length < metadataLineSize := by
  have fits := restorable.fits
  rw [List.length_append] at fits
  omega

theorem RestorableUsers.plainField_csv
    {label : CString}
    {users : List CString}
    (restorable : RestorableUsers label users) :
    PlainField (csv users) := by
  refine ⟨fun member => ?_, newline_not_mem_csv restorable⟩
  rcases mem_intercalate member with isComma | ⟨user, listed, inUser⟩
  · exact absurd isComma (by decide)
  · exact ne_of_validateUsername (restorable.valid user listed) (by decide)
      inUser

/-- What the name server makes of the message about a record. -/
def announcedFile (disk : Disk CString) (rec : FileRecord) : HasFile where
  filename := rec.filename
  owner := rec.owner
  readAclCsv := csv rec.readUsers
  writeAclCsv := csv rec.writeUsers
  size := (contentBytes disk rec).length
  words := countWords (cString (contentBytes disk rec))
  chars := countChars (cString (contentBytes disk rec))

/-- The counts of a content fit the `int` they are kept in. -/
def SmallContent (disk : Disk CString) (rec : FileRecord) : Prop :=
  FitsInt (contentBytes disk rec).length

instance (disk : Disk CString) (rec : FileRecord) :
    Decidable (SmallContent disk rec) :=
  inferInstanceAs (Decidable (_ ∧ _))

section Announced

variable
  {storagePath : CString}
  {rec : FileRecord}
  (restorable : rec.Restorable storagePath)

include restorable

theorem announcement_eq (disk : Disk CString) :
    announcement disk rec =
      [ str "SS_HAS_FILE", rec.filename, rec.owner, csv rec.readUsers,
        csv rec.writeUsers, decimal (contentBytes disk rec).length,
        decimal (countWords (cString (contentBytes disk rec))),
        decimal (countChars (cString (contentBytes disk rec))) ] := by
  have shorter : metadataLineSize ≤ maxFieldSize := by decide
  have readers :=
    ssJoinAcl_of_fits restorable.readers.valid
      (restorable.readers.csv_fits.trans_le shorter)
  have writers :=
    ssJoinAcl_of_fits restorable.writers.valid
      (restorable.writers.csv_fits.trans_le shorter)
  simp only [announcement, hasFileMessage, readers, writers, Option.getD_some]

theorem hasFileOf_announcement
    {disk : Disk CString}
    (small : SmallContent disk rec) :
    hasFileOf (announcement disk rec) = some (announcedFile disk rec) := by
  have counted :
      ∀ count : Nat, count ≤ (contentBytes disk rec).length →
        countField (some (decimal count)) = count := by
    intro count bound
    have high := small.2
    exact atoll_decimal ⟨by omega, by omega⟩
  rw [announcement_eq restorable]
  simp only [hasFileOf, List.getElem?_cons_zero, List.getElem?_cons_succ,
    counted _ (Nat.le_refl _), counted _ (countWords_cString_le _),
    counted _ (countChars_cString_le _), announcedFile]

theorem isRecorded_announcedFile
    (named : validateFilename rec.filename = true)
    (disk : Disk CString) :
    isRecorded (announcedFile disk rec) = true := by
  simp [isRecorded, announcedFile, named, restorable.owner_valid]

/-- The message about a record arrives as it was sent. -/
theorem deliverable_announcement
    (named : validateFilename rec.filename = true)
    {disk : Disk CString}
    (small : SmallContent disk rec) :
    Deliverable (announcement disk rec) := by
  have ownerPlain : PlainField rec.owner :=
    ⟨ne_of_validateUsername restorable.owner_valid (by decide),
      ne_of_validateUsername restorable.owner_valid (by decide)⟩
  have namePlain : PlainField rec.filename := by
    refine ⟨fun member => ?_, restorable.filename_oneLine⟩
    simp only [validateFilename, Bool.and_eq_true, List.all_eq_true] at named
    exact absurd (named.2 _ member) (by decide)
  have words := countWords_cString_le (contentBytes disk rec)
  have chars := countChars_cString_le (contentBytes disk rec)
  have digits :
      ∀ count : Nat, count ≤ (contentBytes disk rec).length →
        (decimal count).length ≤ 20 := by
    intro count bound
    have high := small.2
    exact length_decimal_le ⟨by omega, by omega⟩
  rw [announcement_eq restorable]
  refine ⟨List.cons_ne_nil _ _, ?_, by simp [maxFields], ?_⟩
  · simp only [List.forall_mem_cons, List.not_mem_nil, false_implies,
      implies_true, and_true]
    exact ⟨by decide, namePlain, ownerPlain, restorable.readers.plainField_csv,
      restorable.writers.plainField_csv, plainField_decimal _,
      plainField_decimal _, plainField_decimal _⟩
  · have label : (str "SS_HAS_FILE").length = 11 := by decide
    have nameShort := rec.filename_short
    have ownerShort := (validateUsername_iff.mp restorable.owner_valid).2.1
    have readersShort := restorable.readers.csv_fits
    have writersShort := restorable.writers.csv_fits
    have sizeShort := digits _ (Nat.le_refl _)
    have wordsShort := digits _ words
    have charsShort := digits _ chars
    have joined :=
      length_intercalate_add_one protocolDelimiter
        (List.cons_ne_nil (str "SS_HAS_FILE")
          [ rec.filename, rec.owner, csv rec.readUsers, csv rec.writeUsers,
            decimal (contentBytes disk rec).length,
            decimal (countWords (cString (contentBytes disk rec))),
            decimal (countChars (cString (contentBytes disk rec))) ])
    simp only [roomFor_cons, roomFor_nil, label] at joined
    rw [maxFilenameLength] at nameShort
    rw [maxUsernameLength] at ownerShort
    rw [metadataLineSize] at readersShort writersShort
    rw [TooLong, maxMessageSize]
    omega

end Announced

/-! ## What the name server says -/

/-- An entry says of a file what the record of its storage server says. -/
structure FileRecord.MirroredBy
    (disk : Disk CString)
    (server : StorageServerInfo)
    (rec : FileRecord)
    (file : FileMetadata) : Prop where
  owner_eq : file.owner = rec.owner
  home_eq : (file.ssIp, file.ssPort) = (server.clientIp, server.clientPort)
  size_eq : file.size = (contentBytes disk rec).length
  wordCount_eq : file.wordCount = countWords (cString (contentBytes disk rec))
  charCount_eq : file.charCount = countChars (cString (contentBytes disk rec))
  readAccess :
    ∀ user, fileHasReadAccess file user = ssCheckReadAccess rec user
  writeAccess :
    ∀ user, fileHasWriteAccess file user = ssCheckWriteAccess rec user

/-- The files of a storage server are mirrored, all others are as before. -/
structure MirrorsFiles
    (ss : StorageServer)
    (server : StorageServerInfo)
    (before after : NameServer) : Prop where
  mirrored :
    ∀ rec ∈ ss.files,
      ∃ file,
        entryNamed rec.filename after = some file ∧
          rec.MirroredBy ss.disk server file
  others :
    ∀ filename, filename ∉ recordNames ss →
      viewOf after filename = viewOf before filename

/-- An entry with the view that is announced of a record mirrors it. -/
theorem mirroredBy_of_view
    {storagePath : CString}
    {rec : FileRecord}
    (restorable : rec.Restorable storagePath)
    {disk : Disk CString}
    {server : StorageServerInfo}
    {file : FileMetadata}
    {former : Option EntryView}
    (viewed :
      some file.view = announcedView server (announcedFile disk rec) former) :
    rec.MirroredBy disk server file := by
  have nonempty : rec.owner ≠ [] :=
    (validateUsername_iff.mp restorable.owner_valid).1
  have shorter : metadataLineSize ≤ maxFieldSize := by decide
  have room : ssMaxUsersPerFile ≤ nsMaxClients := by decide
  have listed :
      ∀ {label : CString} {users entries : List CString},
        RestorableUsers label users →
          entries.toFinset = (fileAclParseCsv (csv users)).toFinset →
            ∀ user,
              fileAclContains entries user = fileAclContains users user := by
    intro label users entries restorableUsers same user
    have members : ∀ entry, entry ∈ entries ↔ entry ∈ users := by
      intro entry
      rw [← mem_fileAclParseCsv restorableUsers.valid
        (restorableUsers.few.trans room)
        (restorableUsers.csv_fits.trans_le shorter), ← List.mem_toFinset, same,
        List.mem_toFinset]
    rw [Bool.eq_iff_iff]
    simp only [fileAclContains, List.any_eq_true, members]
  simp only [announcedView, Option.some.injEq, FileMetadata.view,
    announcedFile, EntryView.mk.injEq, nonempty, ↓reduceIte] at viewed
  obtain ⟨owner, home, size, words, chars, readers, writers⟩ := viewed
  refine ⟨owner, home, size, words, chars, fun user => ?_, fun user => ?_⟩
  · rw [fileHasReadAccess, listed restorable.readers readers,
      listed restorable.writers writers, owner]
    simp [ssCheckReadAccess, fileAclContains, nonempty]
  · rw [fileHasWriteAccess, listed restorable.writers writers, owner]
    simp [ssCheckWriteAccess, fileAclContains, nonempty]

/-- What `run_ss_loop` does on a message of the file sync, at any time. -/
inductive Hears {World : Type} (server : StorageServerInfo) :
    List CString → NsAction World → Prop where
  | hasFile (now : Int) (fields : List CString) :
      Hears server (str "SS_HAS_FILE" :: fields)
        (.hasFile now server (str "SS_HAS_FILE" :: fields))
  | filesDone (fields : List CString) :
      Hears server (str "SS_FILES_DONE" :: fields) (.filesDone server.address)

/-- The names of a storage server's files that are not yet in the table. -/
def namesToRegister (ns : NameServer) (ss : StorageServer) : List CString :=
  (recordNames ss).filter fun name => viewOf ns name = none

/-- What the records need to be announced. -/
structure Announceable (ss : StorageServer) : Prop where
  names_nodup : (recordNames ss).Nodup
  restorable : ∀ rec ∈ ss.files, rec.Restorable ss.storagePath
  named : ∀ rec ∈ ss.files, validateFilename rec.filename = true
  small : ∀ rec ∈ ss.files, SmallContent ss.disk rec

section Hearing

variable
  {World : Type}
  {ss : StorageServer}
  (announceable : Announceable ss)

include announceable

theorem receivedMessages_fileList :
    receivedMessages ((fileList ss).flatMap protocolBuildMessage) =
      fileList ss := by
  apply receivedMessages_flatMap
  intro fields listed
  rcases List.mem_append.mp listed with announced | done
  · obtain ⟨rec, present, rfl⟩ := List.mem_map.mp announced
    exact deliverable_announcement (announceable.restorable rec present)
      (announceable.named rec present) (announceable.small rec present)
  · rw [List.mem_singleton.mp done]
    exact ⟨by decide, by decide, by decide, by decide⟩

/-- What the name server hears are the announcements in their order. -/
theorem announcements_of_heard
    {server : StorageServerInfo}
    {recs : List FileRecord}
    (present : ∀ rec ∈ recs, rec ∈ ss.files)
    {actions : List (NsAction World)}
    (heard :
      List.Forall₂ (Hears server)
        (recs.map (announcement ss.disk) ++ [[str "SS_FILES_DONE"]])
        actions) :
    (∀ action ∈ actions, isSync action = true) ∧
      announcements actions =
        recs.map fun rec => (server, announcedFile ss.disk rec) := by
  induction recs generalizing actions with
  | nil =>
      obtain ⟨action, rest, isDone, none, rfl⟩ :=
        List.forall₂_cons_left_iff.mp heard
      obtain rfl := List.forall₂_nil_left_iff.mp none
      cases isDone with
      | filesDone => exact ⟨by simp [isSync], rfl⟩
  | cons rec rest inductionHypothesis =>
      rw [List.forall_mem_cons] at present
      rw [List.map_cons, List.cons_append] at heard
      obtain ⟨action, later, hears, heardRest, rfl⟩ :=
        List.forall₂_cons_left_iff.mp heard
      obtain ⟨sync, announced⟩ := inductionHypothesis present.2 heardRest
      have parsed :=
        hasFileOf_announcement (announceable.restorable rec present.1)
          (announceable.small rec present.1)
      have recorded :=
        isRecorded_announcedFile (announceable.restorable rec present.1)
          (announceable.named rec present.1) ss.disk
      have shape :=
        announcement_eq (announceable.restorable rec present.1) ss.disk
      rw [shape] at hears parsed
      cases hears with
      | hasFile now fields =>
          refine ⟨List.forall_mem_cons.mpr ⟨?_, sync⟩, ?_⟩
          · rw [isSync, parsed]
            exact recorded
          · rw [List.map_cons, ← announced]
            refine List.filterMap_cons_some ?_
            rw [announcementOf, parsed, Option.map_some]

/-- Once the file list has been heard the files are mirrored. -/
theorem mirrorsFiles_of_heard
    {backend : Backend World}
    {state : NsState World}
    (registry : Registry state.ns)
    (room :
      state.ns.files.length + (namesToRegister state.ns ss).length ≤
        nsMaxFiles)
    {server : StorageServerInfo}
    {actions : List (NsAction World)}
    (heard : List.Forall₂ (Hears server) (fileList ss) actions) :
    MirrorsFiles ss server state.ns
      (runFrom (nsStep backend) state actions).ns := by
  obtain ⟨sync, announced⟩ :=
    announcements_of_heard announceable (fun _ => id) heard
  have names :
      (announcements actions).map announcedName = recordNames ss := by
    rw [announced, List.map_map]
    rfl
  have distinct : ((announcements actions).map announcedName).Nodup := by
    rw [names]
    exact announceable.names_nodup
  have fits : FitsTable state.ns actions := by
    rw [FitsTable, newNames, names]
    exact room
  have viewed := (@viewOf_sync _ backend _ registry _ sync distinct fits).1
  have keys := nodup_updateOf distinct
  constructor
  · intro rec present
    have listed :
        updateOf (server, announcedFile ss.disk rec) ∈
          (announcements actions).map updateOf := by
      rw [announced, List.map_map]
      exact List.mem_map_of_mem present
    have said := applyUpdates_of_mem keys listed (viewOf state.ns)
    rw [← viewed] at said
    change viewOf _ rec.filename = announcedView server _ _ at said
    cases found :
        entryNamed rec.filename
          (runFrom (nsStep backend) state actions).ns with
    | none =>
        rw [viewOf, found] at said
        cases said
    | some file =>
        rw [viewOf, found, Option.map_some] at said
        exact ⟨file, rfl,
          mirroredBy_of_view (announceable.restorable rec present) said⟩
  · intro filename unlisted
    rw [viewed]
    apply applyUpdates_of_not_mem
    rw [map_fst_updateOf, names]
    exact unlisted

end Hearing

end DistributedDocs
