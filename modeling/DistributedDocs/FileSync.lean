import DistributedDocs.KeyedUpdates
import DistributedDocs.ServerLoads
import DistributedDocs.UserLists
import Mathlib.Data.Finset.Dedup

namespace DistributedDocs

/-!
# The synchronisation of files

A storage server that connects announces its files with `SS_HAS_FILE`, one
message each.  The table that results depends on the order, but what it says
of each name does not.
-/

/-! ## What the registry says of a name -/

/-- An entry, less its times and its place. -/
structure EntryView where
  owner : CString
  home : CString × Int
  size : Int
  wordCount : Int
  charCount : Int
  readers : Finset CString
  writers : Finset CString
  deriving DecidableEq

/-- What an entry says. -/
def FileMetadata.view (file : FileMetadata) : EntryView where
  owner := file.owner
  home := (file.ssIp, file.ssPort)
  size := file.size
  wordCount := file.wordCount
  charCount := file.charCount
  readers := file.readAccessUsers.toFinset
  writers := file.writeAccessUsers.toFinset

/-- The registry as a map from names. -/
def viewOf (ns : NameServer) (filename : CString) : Option EntryView :=
  (entryNamed filename ns).map FileMetadata.view

/-- What a name is to be after an announcement. -/
def announcedView
    (ss : StorageServerInfo)
    (msg : HasFile)
    (former : Option EntryView) : Option EntryView :=
  some
    { owner :=
        if msg.owner = [] then (former.map EntryView.owner).getD []
        else msg.owner
      home := (ss.clientIp, ss.clientPort)
      size := msg.size
      wordCount := msg.words
      charCount := msg.chars
      readers := (fileAclParseCsv msg.readAclCsv).toFinset
      writers := (fileAclParseCsv msg.writeAclCsv).toFinset }

/-! ## Messages -/

section Messages

variable {World : Type}

/-- A valid message of the file sync. -/
def isSync : NsAction World → Bool
  | .hasFile _ _ msg => (hasFileOf msg).any isRecorded
  | .filesDone _ => true
  | _ => false

/-- The file a message announces, and the server that has it. -/
def announcementOf : NsAction World → Option (StorageServerInfo × HasFile)
  | .hasFile _ ss msg => (hasFileOf msg).map fun hasFile => (ss, hasFile)
  | _ => none

/-- The files that messages announce. -/
def announcements (actions : List (NsAction World)) :
    List (StorageServerInfo × HasFile) :=
  actions.filterMap announcementOf

/-- The name that is announced. -/
def announcedName (announcement : StorageServerInfo × HasFile) : CString :=
  announcement.2.filename

/-- The update of the map that an announcement stands for. -/
def updateOf (announcement : StorageServerInfo × HasFile) :
    CString × (Option EntryView → Option EntryView) :=
  (announcedName announcement, announcedView announcement.1 announcement.2)

/-- The names that are announced and not yet in the table. -/
def newNames
    (ns : NameServer)
    (actions : List (NsAction World)) : List CString :=
  ((announcements actions).map announcedName).filter fun name =>
    viewOf ns name = none

/-- The announced files fit in the table. -/
def FitsTable
    (ns : NameServer)
    (actions : List (NsAction World)) : Prop :=
  ns.files.length + (newNames ns actions).length ≤ nsMaxFiles

/-- What is announced of a file is what the registry says of it. -/
structure AsAnnounced
    (ss : StorageServerInfo)
    (msg : HasFile)
    (view : EntryView) : Prop where
  home : view.home = (ss.clientIp, ss.clientPort)
  size : view.size = msg.size
  wordCount : view.wordCount = msg.words
  charCount : view.charCount = msg.chars
  readers : view.readers = (fileAclParseCsv msg.readAclCsv).toFinset
  writers : view.writers = (fileAclParseCsv msg.writeAclCsv).toFinset
  owner : msg.owner ≠ [] → view.owner = msg.owner
  readersListed :
    ∀ users, UserList users → (csv users).length < maxFieldSize →
      msg.readAclCsv = csv users → view.readers = users.toFinset
  writersListed :
    ∀ users, UserList users → (csv users).length < maxFieldSize →
      msg.writeAclCsv = csv users → view.writers = users.toFinset

/--
The messages may be handled in any order and more than once, and what the
registry says of a name is then what was announced of it, or as before.
-/
structure FilesSynced
    (backend : Backend World)
    (state : NsState World)
    (actions : List (NsAction World)) : Prop where
  anyOrder :
    ∀ others : List (NsAction World),
      (∀ action ∈ others, isSync action = true) →
        (announcements others).Perm (announcements actions) →
          viewOf (runFrom (nsStep backend) state others).ns =
            viewOf (runFrom (nsStep backend) state actions).ns
  again :
    ∀ others : List (NsAction World),
      (∀ action ∈ others, isSync action = true) →
        (announcements others).Perm (announcements actions) →
          viewOf (runFrom (nsStep backend) state (actions ++ others)).ns =
            viewOf (runFrom (nsStep backend) state actions).ns
  unlisted :
    ∀ filename, filename ∉ (announcements actions).map announcedName →
      viewOf (runFrom (nsStep backend) state actions).ns filename =
        viewOf state.ns filename
  listed :
    ∀ ss msg, (ss, msg) ∈ announcements actions →
      ∃ view,
        viewOf (runFrom (nsStep backend) state actions).ns msg.filename =
            some view ∧
          AsAnnounced ss msg view

end Messages

/-! ## One announcement -/

section Announcing

variable {ns after : NameServer}

/-- A changed entry is found under its name, the others as before. -/
theorem entryNamed_of_modify
    (registry : Registry ns)
    {index : Nat}
    {file : FileMetadata}
    (held : ns.files[index]? = some file)
    {change : FileMetadata → FileMetadata}
    (keepsName : ∀ file, (change file).filename = file.filename)
    (files : after.files = ns.files.modify index change)
    (filename : CString) :
    entryNamed filename after =
      if filename = file.filename then some (change file)
      else entryNamed filename ns := by
  have names : plainScan after.files filename = plainScan ns.files filename := by
    rw [files]
    exact plainScan_congr (names_modify keepsName index)
  rw [entryNamed, entryNamed, names]
  split
  · next same =>
    subst same
    rw [(plainScan_eq_some_iff registry.coherent.names_nodup).mpr
      ⟨file, held, rfl⟩, Option.bind_some, files, List.getElem?_modify, held]
    simp
  · next different =>
    cases scanned : plainScan ns.files filename with
    | none => rfl
    | some position =>
        obtain ⟨other, otherHeld, named⟩ := plainScan_some scanned
        have apart : index ≠ position := by
          rintro rfl
          rw [held] at otherHeld
          cases otherHeld
          exact different named.symm
        rw [Option.bind_some, Option.bind_some, files,
          List.getElem?_modify]
        simp [apart]

/-- An entry that is added is found under its name, the others as before. -/
theorem entryNamed_of_append
    {file : FileMetadata}
    (fresh : plainScan ns.files file.filename = none)
    (files : after.files = ns.files ++ [file])
    (filename : CString) :
    entryNamed filename after =
      if filename = file.filename then some file
      else entryNamed filename ns := by
  rw [entryNamed, entryNamed, files, plainScan_append fresh]
  split
  · simp
  · cases scanned : plainScan ns.files filename with
    | none => rfl
    | some position =>
        have within := lt_of_plainScan scanned
        rw [Option.bind_some, Option.bind_some,
          List.getElem?_append_left within]

theorem viewOf_eq_none_iff (ns : NameServer) (filename : CString) :
    viewOf ns filename = none ↔ plainScan ns.files filename = none := by
  rw [viewOf, Option.map_eq_none_iff, entryNamed]
  cases scanned : plainScan ns.files filename with
  | none => simp
  | some index =>
      obtain ⟨file, held, _⟩ := plainScan_some scanned
      simp [held]

/-- An owner that is recorded fits. -/
theorem safeStrcpy_owner
    {hasFile : HasFile}
    (recorded : isRecorded hasFile = true) :
    safeStrcpy hasFile.owner maxUsernameLength = hasFile.owner := by
  simp only [isRecorded, Bool.and_eq_true, Bool.or_eq_true,
    decide_eq_true_eq] at recorded
  rcases recorded.2 with none | valid
  · rw [none]
    rfl
  · exact safeStrcpy_of_short (validateUsername_iff.mp valid).2.1

/-- An entry that is updated says what is announced. -/
theorem view_updatedMetadata
    (now : Int)
    (ss : StorageServerInfo)
    {hasFile : HasFile}
    (recorded : isRecorded hasFile = true)
    (file : FileMetadata) :
    some (updatedMetadata now ss hasFile file).view =
      announcedView ss hasFile (some file.view) := by
  simp only [FileMetadata.view, updatedMetadata, announcedView,
    safeStrcpy_owner recorded, safeStrcpy_of_short ss.clientIp_short,
    Option.map_some, Option.getD_some]

/-- A new entry says what is announced. -/
theorem view_reportedMetadata
    (now : Int)
    (ss : StorageServerInfo)
    {hasFile : HasFile}
    (recorded : isRecorded hasFile = true) :
    some (reportedMetadata now ss hasFile).view =
      announcedView ss hasFile none := by
  have updated :=
    view_updatedMetadata now ss recorded (blankMetadata hasFile.filename [])
  have blank : (blankMetadata hasFile.filename []).view.owner = [] := rfl
  simp only [announcedView, Option.map_some, Option.getD_some, blank] at updated
  exact updated

/-- A message can be recorded if its file is known or there is room. -/
theorem applyHasFile_returns
    (registry : Registry ns)
    (now : Int)
    (ss : StorageServerInfo)
    {msg : List CString}
    {hasFile : HasFile}
    (parsed : hasFileOf msg = some hasFile)
    (recorded : isRecorded hasFile = true)
    (hasRoom :
      viewOf ns hasFile.filename = none → ns.files.length < nsMaxFiles) :
    ∃ after, applyHasFile now ss msg ns = .ok after := by
  simp only [isRecorded, Bool.and_eq_true, Bool.or_eq_true,
    decide_eq_true_eq] at recorded
  obtain ⟨validName, validOwner⟩ := recorded
  have ownerPasses :
      ¬(decide (hasFile.owner ≠ []) && !validateUsername hasFile.owner) =
        true := by
    rcases validOwner with none | valid
    · simp [none]
    · simp [valid]
  simp only [applyHasFile, parsed, validName, Bool.not_true,
    Bool.false_eq_true, ↓reduceIte, ownerPasses, registry.coherent.index_agrees]
  split
  · exact ⟨_, rfl⟩
  · next absent =>
    have missing : viewOf ns hasFile.filename = none := by
      rw [viewOf_eq_none_iff]
      cases scanned : plainScan ns.files hasFile.filename with
      | none => rfl
      | some index =>
          rw [scanned, Option.filter_some, if_pos] at absent
          · cases absent
          · simpa using lt_of_plainScan scanned
    rw [if_neg (not_le.mpr (hasRoom missing))]
    exact ⟨_, rfl⟩

/-- What the registry says after a message. -/
theorem viewOf_applyHasFile
    (registry : Registry ns)
    {now : Int}
    {ss : StorageServerInfo}
    {msg : List CString}
    {hasFile : HasFile}
    (parsed : hasFileOf msg = some hasFile)
    (applied : applyHasFile now ss msg ns = .ok after) :
    viewOf after =
        Function.update (viewOf ns) hasFile.filename
          (announcedView ss hasFile (viewOf ns hasFile.filename)) ∧
      after.files.length =
        ns.files.length +
          if viewOf ns hasFile.filename = none then 1 else 0 := by
  obtain ⟨-, other, readOther, recorded, recording⟩ :=
    files_applyHasFile registry applied
  obtain rfl : hasFile = other :=
    Option.some.inj (parsed.symm.trans readOther)
  rcases recording with ⟨index, file, held, name, files⟩ | ⟨document, files⟩
  · have found := entryNamed_of_mem registry (List.mem_of_getElem? held)
    have known : viewOf ns hasFile.filename = some file.view := by
      rw [viewOf, ← name, found, Option.map_some]
    refine ⟨funext fun filename => ?_, by simp [files, known]⟩
    rw [viewOf,
      entryNamed_of_modify registry held (filename_updatedMetadata now ss hasFile)
        files,
      Function.update_apply, known, ← view_updatedMetadata now ss recorded file,
      name]
    split
    · rfl
    · rfl
  · have names := (registry.applyHasFile applied).coherent.names_nodup
    have validName : validateFilename hasFile.filename = true := by
      rw [isRecorded, Bool.and_eq_true] at recorded
      exact recorded.1
    have name :
        safeStrcpy hasFile.filename maxFilenameLength = hasFile.filename :=
      safeStrcpy_of_short (length_of_validateFilename validName)
    have fresh : plainScan ns.files hasFile.filename = none := by
      rw [plainScan_eq_none_iff]
      intro file present same
      rw [files, List.map_append, List.nodup_append] at names
      exact names.2.2 _ (List.mem_map_of_mem present) _
        (List.mem_singleton_self _) (same.trans name.symm)
    have unknown := (viewOf_eq_none_iff ns hasFile.filename).mpr fresh
    have absent :
        plainScan ns.files
          (safeStrcpy hasFile.filename maxFilenameLength) = none := by
      rw [name]
      exact fresh
    refine ⟨funext fun filename => ?_, by simp [files, unknown]⟩
    rw [viewOf, entryNamed_of_append absent files, Function.update_apply,
      unknown, ← view_reportedMetadata now ss recorded]
    change Option.map _ (if filename = safeStrcpy _ _ then _ else _) = _
    rw [name]
    split
    · rfl
    · rfl

end Announcing

/-! ## All announcements -/

section Syncing

variable
  {World : Type}
  {backend : Backend World}
  {state : NsState World}

theorem map_fst_updateOf (list : List (StorageServerInfo × HasFile)) :
    (list.map updateOf).map Prod.fst = list.map announcedName := by
  rw [List.map_map]
  rfl

theorem nodup_updateOf
    {list : List (StorageServerInfo × HasFile)}
    (distinct : (list.map announcedName).Nodup) :
    ((list.map updateOf).map Prod.fst).Nodup := by
  rw [map_fst_updateOf]
  exact distinct

theorem asAnnounced
    (ss : StorageServerInfo)
    (msg : HasFile)
    (former : Option EntryView) :
    ∃ view, announcedView ss msg former = some view ∧ AsAnnounced ss msg view :=
  ⟨_, rfl,
    { home := rfl
      size := rfl
      wordCount := rfl
      charCount := rfl
      readers := rfl
      writers := rfl
      owner := fun named => if_neg named
      readersListed := fun users list fits same => by
        simp only [same, fileAclParseCsv_of_fits list fits]
      writersListed := fun users list fits same => by
        simp only [same, fileAclParseCsv_of_fits list fits] }⟩

/-- To hear the same twice is to hear it once. -/
theorem announcedView_announcedView
    (ss : StorageServerInfo)
    (msg : HasFile)
    (former : Option EntryView) :
    announcedView ss msg (announcedView ss msg former) =
      announcedView ss msg former := by
  simp only [announcedView, Option.map_some, Option.getD_some]
  split
  · rfl
  · rfl

theorem registry_sync
    (registry : Registry state.ns)
    (actions : List (NsAction World)) :
    Registry (runFrom (nsStep backend) state actions).ns := by
  have preserved :
      ∀ (state : NsState World) (action : NsAction World),
        Registry state.ns → Registry (nsStep backend state action).ns :=
    fun _ action registry => registry.nsStep action
  exact runFrom_invariant preserved registry actions

/-- An announced name is new or not, and the later ones are as new as before. -/
theorem length_newNames_cons
    {ns after : NameServer}
    {ss : StorageServerInfo}
    {hasFile : HasFile}
    {action : NsAction World}
    (isAnnouncement : announcementOf action = some (ss, hasFile))
    {rest : List (NsAction World)}
    (apart : hasFile.filename ∉ (announcements rest).map announcedName)
    (others :
      ∀ name, name ≠ hasFile.filename → viewOf after name = viewOf ns name) :
    (newNames ns (action :: rest)).length =
      (newNames after rest).length +
        if viewOf ns hasFile.filename = none then 1 else 0 := by
  have sameRest : newNames after rest = newNames ns rest := by
    refine List.filter_congr fun name listed => ?_
    rw [others name fun same => apart (same ▸ listed)]
  rw [sameRest, newNames, announcements, List.filterMap_cons_some isAnnouncement,
    List.map_cons, List.filter_cons, announcedName]
  simp only [decide_eq_true_eq]
  split
  · rfl
  · rfl

/-- The map after all messages. -/
theorem viewOf_sync
    (registry : Registry state.ns)
    {actions : List (NsAction World)}
    (sync : ∀ action ∈ actions, isSync action = true)
    (distinct : ((announcements actions).map announcedName).Nodup)
    (fits : FitsTable state.ns actions) :
    viewOf (runFrom (nsStep backend) state actions).ns =
        applyUpdates ((announcements actions).map updateOf)
          (viewOf state.ns) ∧
      (runFrom (nsStep backend) state actions).ns.files.length =
        state.ns.files.length + (newNames state.ns actions).length := by
  induction actions generalizing state with
  | nil =>
      exact ⟨rfl, rfl⟩
  | cons action rest inductionHypothesis =>
      have syncRest : ∀ later ∈ rest, isSync later = true :=
        fun later listed => sync later (List.mem_cons_of_mem action listed)
      have isMessage := sync action List.mem_cons_self
      cases action with
      | hasFile now ss msg =>
          obtain ⟨hasFile, parsed, recorded⟩ :=
            (Option.any_eq_true _ _).mp isMessage
          have isAnnouncement :
              announcementOf (.hasFile now ss msg : NsAction World) =
                some (ss, hasFile) := by
            rw [announcementOf, parsed, Option.map_some]
          have list :
              announcements (.hasFile now ss msg :: rest) =
                (ss, hasFile) :: announcements rest :=
            List.filterMap_cons_some isAnnouncement
          rw [list, List.map_cons, List.nodup_cons] at distinct
          obtain ⟨apart, distinctRest⟩ := distinct
          have counts :=
            fun (after : NameServer) others =>
              @length_newNames_cons World state.ns after ss hasFile _
                isAnnouncement rest apart others
          have hasRoom :
              viewOf state.ns hasFile.filename = none →
                state.ns.files.length < nsMaxFiles := by
            intro unknown
            have count := counts state.ns fun _ _ => rfl
            rw [if_pos unknown] at count
            rw [FitsTable, count] at fits
            omega
          obtain ⟨after, applied⟩ :=
            applyHasFile_returns registry now ss parsed recorded hasRoom
          obtain ⟨view, length⟩ := viewOf_applyHasFile registry parsed applied
          have count := counts after fun name different => by
            rw [view, Function.update_of_ne different]
          have fitsRest : FitsTable after rest := by
            rw [FitsTable, count] at fits
            rw [FitsTable, length]
            omega
          have stepped :
              nsStep backend state (.hasFile now ss msg) =
                { state with ns := after } := by
            simp only [nsStep, applied]
          obtain ⟨viewRest, lengthRest⟩ :=
            @inductionHypothesis { state with ns := after }
              (registry.applyHasFile applied) syncRest distinctRest fitsRest
          rw [runFrom_cons, stepped, list, List.map_cons, applyUpdates_cons]
          refine ⟨?_, ?_⟩
          · rw [viewRest, view]
            rfl
          · change _ = after.files.length + (newNames after rest).length
              at lengthRest
            rw [lengthRest, length, count]
            omega
      | filesDone address =>
          exact inductionHypothesis (registry.nsStep (.filesDone address))
            syncRest distinct fits
      | command now username command => cases isMessage
      | writeComplete now ss msg => cases isMessage
      | servers storageServers => cases isMessage
      | storage world => cases isMessage

/-- After the messages every announced name is known. -/
theorem newNames_eq_nil
    (registry : Registry state.ns)
    {actions others : List (NsAction World)}
    (sync : ∀ action ∈ actions, isSync action = true)
    (distinct : ((announcements actions).map announcedName).Nodup)
    (fits : FitsTable state.ns actions)
    (perm : (announcements others).Perm (announcements actions)) :
    newNames (runFrom (nsStep backend) state actions).ns others = [] := by
  rw [newNames, List.filter_eq_nil_iff]
  intro name listed
  obtain ⟨⟨ss, msg⟩, member, rfl⟩ := List.mem_map.mp listed
  have isListed := List.mem_map_of_mem (f := updateOf) (perm.mem_iff.mp member)
  have keys := nodup_updateOf distinct
  have said :
      applyUpdates ((announcements actions).map updateOf) (viewOf state.ns)
          (announcedName (ss, msg)) =
        announcedView ss msg (viewOf state.ns (announcedName (ss, msg))) :=
    applyUpdates_of_mem keys isListed (viewOf state.ns)
  rw [(viewOf_sync registry sync distinct fits).1, said, decide_eq_true_eq]
  exact Option.some_ne_none _

/--
Messages of the file sync with distinct names, from one storage server or
several, make the same map in every order and when they come again.
-/
theorem filesSynced
    (registry : Registry state.ns)
    {actions : List (NsAction World)}
    (sync : ∀ action ∈ actions, isSync action = true)
    (distinct : ((announcements actions).map announcedName).Nodup)
    (fits : FitsTable state.ns actions) :
    FilesSynced backend state actions := by
  have keys := nodup_updateOf distinct
  obtain ⟨view, length⟩ := @viewOf_sync _ backend _ registry _ sync distinct fits
  constructor
  · intro others syncOthers perm
    have namesPerm := perm.map announcedName
    have fitsOthers : FitsTable state.ns others := by
      rw [FitsTable, newNames, (namesPerm.filter _).length_eq]
      exact fits
    rw [(viewOf_sync registry syncOthers (namesPerm.nodup_iff.mpr distinct)
      fitsOthers).1, view]
    exact applyUpdates_perm keys (perm.map updateOf) _
  · intro others syncOthers perm
    have namesPerm := perm.map announcedName
    have none :=
      @newNames_eq_nil _ backend _ registry _ others sync distinct fits perm
    have fitsOthers :
        FitsTable (runFrom (nsStep backend) state actions).ns others := by
      rw [FitsTable, none, length]
      exact fits
    rw [runFrom_append,
      (viewOf_sync (registry_sync registry actions) syncOthers
        (namesPerm.nodup_iff.mpr distinct) fitsOthers).1, view]
    refine applyUpdates_again keys ?_ (perm.map updateOf) _
    intro update listed former
    obtain ⟨⟨ss, msg⟩, _, rfl⟩ := List.mem_map.mp listed
    exact announcedView_announcedView ss msg former
  · intro filename unlisted
    rw [← map_fst_updateOf] at unlisted
    rw [view, applyUpdates_of_not_mem unlisted]
  · intro ss msg listed
    have isListed := List.mem_map_of_mem (f := updateOf) listed
    have said := applyUpdates_of_mem keys isListed (viewOf state.ns)
    obtain ⟨entry, isEntry, announced⟩ :=
      asAnnounced ss msg (viewOf state.ns msg.filename)
    refine ⟨entry, ?_, announced⟩
    rw [view, ← isEntry]
    exact said

end Syncing

/-- A name server with two storage servers and one file. -/
def onePlan : NsState Unit :=
  runFrom (nsStep acceptingStorage) ⟨nsInit, ()⟩
    [.servers [someStorageServer, secondStorageServer],
      .command 1 (str "ada") (.create [str "CREATE", str "plan"])]

/-- The second server has the file now, the first has another. -/
def twoStreams : List (NsAction Unit) :=
  [.hasFile 2 secondStorageServer
      [str "SS_HAS_FILE", str "plan", [], str "bob,eve", str "bob", str "12",
        str "2", str "11"],
    .hasFile 3 someStorageServer
      [str "SS_HAS_FILE", str "notes", str "eve", [], [], str "3", str "1",
        str "3"],
    .filesDone 0,
    .filesDone 1]

/-- Both orders give the file its new home and keep its owner. -/
theorem filesSynced_twoStreams :
    FilesSynced acceptingStorage onePlan twoStreams ∧
      viewOf (runFrom (nsStep acceptingStorage) onePlan twoStreams).ns
          (str "plan") =
        some
          { owner := str "ada"
            home := (str "10.0.0.7", 9002)
            size := 12
            wordCount := 2
            charCount := 11
            readers := {str "bob", str "eve"}
            writers := {str "bob"} } :=
  ⟨filesSynced (registry_reachable acceptingStorage () _) (by decide +kernel)
      (by decide +kernel) (by unfold FitsTable; decide +kernel),
    by decide +kernel⟩

end DistributedDocs
