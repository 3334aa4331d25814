import DistributedDocs.Registration
import DistributedDocs.StoredDocuments

namespace DistributedDocs

/-!
# Registration after a crash

A storage server that starts again reads its directory, connects, and announces
what it has read.  Whatever it did before it crashed, the name server then says
of its files what it said of them itself.
-/

/-! ## Names that are valid -/

/-- The file that is moved gets a valid name; new files are checked. -/
def StorageOperation.NamesValid : StorageOperation → Prop
  | .event ⟨_, .ssRename _ newLogical⟩ =>
      validateFilename newLogical = true
  | _ => True

instance : ∀ operation : StorageOperation, Decidable operation.NamesValid
  | .event ⟨_, .ssRename _ newLogical⟩ =>
      inferInstanceAs (Decidable (validateFilename newLogical = true))
  | .event ⟨_, .writeLock _ _⟩
  | .event ⟨_, .writeData _ _⟩
  | .event ⟨_, .etirw _⟩
  | .event ⟨_, .disconnected _⟩
  | .event ⟨_, .undo _ _⟩
  | .event ⟨_, .revert _ _⟩
  | .event ⟨_, .checkpoint _ _⟩
  | .event ⟨_, .createFile _⟩
  | .event ⟨_, .deleteFile _⟩
  | .event ⟨_, .ssCopy _ _⟩
  | .request _ _ =>
      isTrue trivial

/-- Every file has a name the name server accepts. -/
def AllNamed (files : List FileRecord) : Prop :=
  ∀ rec ∈ files, validateFilename rec.filename = true

theorem AllNamed.stored
    {files : List FileRecord}
    (named : AllNamed files)
    {changed : FileRecord}
    (valid : validateFilename changed.filename = true) :
    AllNamed (storeRecord changed files) := by
  intro rec listed
  rcases mem_storeRecord listed with ⟨present, _⟩ | rfl
  · exact named rec present
  · exact valid

theorem AllNamed.ssStep
    {ss : StorageServer}
    (named : AllNamed ss.files)
    (placed : RecordsPlaced ss)
    (undisturbed : ss.disk.outcomes = [])
    {event : SsEvent}
    (valid : (StorageOperation.event event).NamesValid) :
    AllNamed (DistributedDocs.ssStep ss event).files := by
  cases stepOutcome placed undisturbed event with
  | idle noSubject ends =>
      rw [ends.files_eq]
      exact named
  | @committed fd rec username newContent bytes isEtirw accepted subject
      present ends =>
      rw [ends.files_eq]
      exact named.stored (named rec (mem_of_subject subject))
  | @reverted fd msg rec username before restored isRevert accepted subject
      present ends =>
      rw [ends.files_eq]
      exact named.stored (named rec (mem_of_subject subject))
  | @undone fd msg rec username snapshot isUndo accepted subject available
      kept ends =>
      rw [ends.files_eq]
      exact named.stored (named rec (mem_of_subject subject))
  | notCheckpointed isCheckpoint refused target ends =>
      rw [ends.files_eq]
      exact named
  | @checkpointed fd type username filename tag rest rec ckptPath bytes
      isCheckpoint accepted target present ends =>
      rw [ends.files_eq]
      exact named.stored
        (named rec (@checkpointTarget_found _ 0 _ _ _ _ target).1)
  | @renamed oldLogical newLogical rec bytes isRename accepted target present
      ends =>
      obtain ⟨now, command⟩ := event
      obtain rfl : command = .ssRename oldLogical newLogical := isRename
      have validName : validateFilename newLogical = true := valid
      rw [ends.files_eq]
      refine named.stored ?_
      change validateFilename (safeStrcpy newLogical maxFilenameLength) = true
      rwa [safeStrcpy_of_short (length_of_validateFilename validName)]
  | notCopied isCopy refused target ends =>
      rw [ends.files_eq]
      exact named
  | @copied peer msg srcRec destRec username bytes isCopy accepted target
      ends =>
      rw [ends.files_eq]
      exact named.stored
        (named destRec (@copyTarget_found _ peer event.now _ _ _ target).1)
  | @created msg newRecord isCreate accepted created ends =>
      obtain ⟨filename, owner, validName, _, rfl⟩ := createdRecord_eq created
      rw [ends.files_eq]
      refine List.forall_mem_cons.mpr ⟨?_, named⟩
      change validateFilename (safeStrcpy filename maxFilenameLength) = true
      rwa [safeStrcpy_of_short (length_of_validateFilename validName)]
  | deleted isDelete accepted deleted ends =>
      rw [ends.files_eq]
      exact fun rec listed => named rec (List.mem_of_mem_eraseP listed)

theorem AllNamed.ssOperate
    {ss : StorageServer}
    (named : AllNamed ss.files)
    (placed : RecordsPlaced ss)
    (undisturbed : ss.disk.outcomes = [])
    {operation : StorageOperation}
    (valid : operation.NamesValid) :
    AllNamed (DistributedDocs.ssOperate ss operation).files := by
  cases operation with
  | event event => exact named.ssStep placed undisturbed valid
  | request now request =>
      obtain ⟨describe, files, same⟩ := (requestEffect ss now request).files_eq
      intro rec listed
      rw [files] at listed
      obtain ⟨former, present, rfl⟩ := List.mem_map.mp listed
      rw [(same placed.addresses_nodup former present).filename_eq]
      exact named former present

/-! ## Records that are read back -/

/-- A record that is read back differs in its address only. -/
theorem FileRecord.eq_of_persistent
    {first second : FileRecord}
    (same : first.persistent = second.persistent) :
    first = { second with address := first.address } := by
  obtain ⟨_, _⟩ := first
  obtain ⟨_, _⟩ := second
  simp only [FileRecord.persistent, FileRecord.mk.injEq] at same ⊢
  simpa using same

/-- A record can be restored whatever its address is. -/
theorem FileRecord.Restorable.at_address
    {storagePath : CString}
    {rec : FileRecord}
    (restorable : rec.Restorable storagePath)
    (address : Nat) :
    FileRecord.Restorable storagePath { rec with address := address } where
  filepath_eq := restorable.filepath_eq
  metapath_eq := restorable.metapath_eq
  undopath_eq := restorable.undopath_eq
  filename_nonempty := restorable.filename_nonempty
  filename_oneLine := restorable.filename_oneLine
  filename_last := restorable.filename_last
  physicalName_eq := restorable.physicalName_eq
  owner_valid := restorable.owner_valid
  lastAccessUser_valid := restorable.lastAccessUser_valid
  created_fits := restorable.created_fits
  modified_fits := restorable.modified_fits
  lastAccess_fits := restorable.lastAccess_fits
  undoAvailable_fits := restorable.undoAvailable_fits
  readers := restorable.readers
  writers := restorable.writers
  checkpoints_few := restorable.checkpoints_few
  checkpoints := restorable.checkpoints

section Loading

variable
  {ss : StorageServer}
  (restartable : Restartable ss)

include restartable

theorem Restartable.names_nodup : (recordNames ss).Nodup := by
  have files : ss.files.Nodup :=
    List.Nodup.of_map FileRecord.address restartable.addresses_nodup
  exact
    List.Nodup.map_on
      (fun _ present _ alsoPresent same =>
        restartable.toPathsApart.eq_of_filename present alsoPresent same)
      files

/-- Every document in the directory is that of a record. -/
theorem Restartable.known_of_listing
    {entries : List DirEntry}
    (listing : DirectoryListing ss entries) :
    ∀ entry ∈ entries, isDocument entry = true →
      ∃ rec ∈ ss.files, rec.filepath = ss.pathOf entry.name := by
  rintro ⟨name, isDirectory⟩ listed document
  rw [isDocument, Bool.and_eq_true, Bool.not_eq_true'] at document
  obtain ⟨rfl, named⟩ := document
  exact restartable.filepath_eq_of_document named
    ((listing.listed name).mp listed).2

/-- Reading the records back leaves the disk alone and sends nothing. -/
theorem Restartable.quiet_ssLoadExistingFiles
    {now : Int}
    {entries : List DirEntry}
    (known :
      ∀ entry ∈ entries, isDocument entry = true →
        ∃ rec ∈ ss.files, rec.filepath = ss.pathOf entry.name)
    {current after : StorageServer}
    (samePath : current.storagePath = ss.storagePath)
    (sameDisk : current.disk = ss.disk)
    (loads : ssLoadExistingFiles now entries current = .ok () after) :
    after.storagePath = ss.storagePath ∧ after.disk = ss.disk ∧
      after.sent = current.sent := by
  induction entries generalizing current with
  | nil =>
      cases loads
      exact ⟨samePath, sameDisk, rfl⟩
  | cons entry rest inductionHypothesis =>
      rw [List.forall_mem_cons] at known
      cases document : isDocument entry with
      | false =>
          simp only [ssLoadExistingFiles, document, Bool.false_eq_true,
            ↓reduceIte] at loads
          exact inductionHypothesis known.2 samePath sameDisk loads
      | true =>
          obtain ⟨rec, present, named⟩ := known.1 document
          have added :=
            restartable.ssAddFileRecord_eq present named now samePath sameDisk
          simp only [ssLoadExistingFiles, document, ↓reduceIte, bind_apply,
            added] at loads
          have recursive := fun path disk =>
            inductionHypothesis known.2 path disk loads
          exact recursive samePath sameDisk

end Loading

/-! ## Registering again -/

/-- The bytes that are sent to a peer. -/
def bytesTo (receiver : Peer) (sent : List Message) : CString :=
  (sent.filter fun message => message.receiver = receiver).flatMap
    fun message => protocolBuildMessage message.fields

/--
The storage server starts again in any directory order, announces its files,
and the name server hears of them what the storage server said before.
-/
def RegistersAgain
    {World : Type}
    (crashed : StorageServer)
    (server : StorageServerInfo)
    (backend : Backend World)
    (state : NsState World) : Prop :=
  ∀ (now : Int) (entries : List DirEntry),
    DirectoryListing crashed entries →
      ∃ loaded announced,
        ssLoadExistingFiles now entries crashed.restarted = .ok () loaded ∧
          ssEmitFileList loaded = .ok () announced ∧
            ∀ actions : List (NsAction World),
              List.Forall₂ (Hears server)
                (receivedMessages (bytesTo .nameServer announced.sent))
                actions →
              MirrorsFiles crashed server state.ns
                (runFrom (nsStep backend) state actions).ns

/-- The files that are read back are announced like those of the crash. -/
theorem announceable_loaded
    {crashed loaded : StorageServer}
    (restartable : Restartable crashed)
    (named : AllNamed crashed.files)
    (small : ∀ rec ∈ crashed.files, SmallContent crashed.disk rec)
    (samePath : loaded.storagePath = crashed.storagePath)
    (sameDisk : loaded.disk = crashed.disk)
    (sameRecords :
      (loaded.files.map FileRecord.persistent).Perm
        (crashed.files.map FileRecord.persistent)) :
    Announceable loaded := by
  have former :
      ∀ rec ∈ loaded.files,
        ∃ old ∈ crashed.files, rec = { old with address := rec.address } := by
    intro rec present
    have listed := sameRecords.subset (List.mem_map_of_mem present)
    obtain ⟨old, oldPresent, same⟩ := List.mem_map.mp listed
    exact ⟨old, oldPresent, FileRecord.eq_of_persistent same.symm⟩
  constructor
  · have names := sameRecords.map FileRecord.filename
    rw [List.map_map, List.map_map] at names
    exact names.nodup_iff.mpr restartable.names_nodup
  · intro rec present
    obtain ⟨old, oldPresent, same⟩ := former rec present
    rw [same, samePath]
    exact (restartable.kept old oldPresent).toRestorable.at_address _
  · intro rec present
    obtain ⟨old, oldPresent, same⟩ := former rec present
    rw [same]
    exact named old oldPresent
  · intro rec present
    obtain ⟨old, oldPresent, same⟩ := former rec present
    rw [same, sameDisk]
    exact small old oldPresent

/-- What mirrors the files that are read back mirrors those of the crash. -/
theorem MirrorsFiles.of_loaded
    {crashed loaded : StorageServer}
    {server : StorageServerInfo}
    {before after : NameServer}
    (mirrors : MirrorsFiles loaded server before after)
    (sameDisk : loaded.disk = crashed.disk)
    (sameRecords :
      (loaded.files.map FileRecord.persistent).Perm
        (crashed.files.map FileRecord.persistent)) :
    MirrorsFiles crashed server before after := by
  constructor
  · intro rec present
    have listed := sameRecords.symm.subset (List.mem_map_of_mem present)
    obtain ⟨new, newPresent, same⟩ := List.mem_map.mp listed
    obtain ⟨file, found, mirrored⟩ := mirrors.mirrored new newPresent
    rw [FileRecord.eq_of_persistent same, sameDisk] at mirrored
    rw [FileRecord.eq_of_persistent same] at found
    exact ⟨file, found,
      ⟨mirrored.owner_eq, mirrored.home_eq, mirrored.size_eq,
        mirrored.wordCount_eq, mirrored.charCount_eq, mirrored.readAccess,
        mirrored.writeAccess⟩⟩
  · intro filename unlisted
    apply mirrors.others
    have names := sameRecords.map FileRecord.filename
    rw [List.map_map, List.map_map] at names
    exact fun listed => unlisted (names.subset listed)

theorem Restartable.registersAgain
    {World : Type}
    {crashed : StorageServer}
    (restartable : Restartable crashed)
    (named : AllNamed crashed.files)
    (small : ∀ rec ∈ crashed.files, SmallContent crashed.disk rec)
    {backend : Backend World}
    {state : NsState World}
    (registry : Registry state.ns)
    (room :
      state.ns.files.length + (namesToRegister state.ns crashed).length ≤
        nsMaxFiles)
    (server : StorageServerInfo) :
    RegistersAgain crashed server backend state := by
  intro now entries listing
  obtain ⟨loaded, loads, sameRecords⟩ :=
    restartable.survivesRestart now entries listing
  have samePlace : crashed.restarted.storagePath = crashed.storagePath := rfl
  have onSameDisk : crashed.restarted.disk = crashed.disk := rfl
  obtain ⟨samePath, sameDisk, nothingSent⟩ :=
    restartable.quiet_ssLoadExistingFiles (restartable.known_of_listing listing)
      samePlace onSameDisk loads
  have announceable :=
    announceable_loaded restartable named small samePath sameDisk sameRecords
  have undisturbed : loaded.disk.outcomes = [] :=
    sameDisk ▸ restartable.undisturbed
  refine ⟨loaded, _, loads, ssEmitFileList_apply undisturbed, ?_⟩
  intro actions heard
  have sent :
      bytesTo .nameServer
          (loaded.sent ++ (fileList loaded).map (Message.mk .nameServer)) =
        (fileList loaded).flatMap protocolBuildMessage := by
    have nothing : crashed.restarted.sent = [] := rfl
    rw [bytesTo, nothingSent, nothing, List.nil_append,
      List.filter_eq_self.mpr (by simp), List.flatMap_map]
  change
    List.Forall₂ _ (receivedMessages (bytesTo .nameServer (_ ++ _))) _ at heard
  rw [sent, receivedMessages_fileList announceable] at heard
  have names := sameRecords.map FileRecord.filename
  rw [List.map_map, List.map_map] at names
  have roomLoaded :
      state.ns.files.length + (namesToRegister state.ns loaded).length ≤
        nsMaxFiles := by
    have count :
        (namesToRegister state.ns loaded).length =
          (namesToRegister state.ns crashed).length :=
      (names.filter _).length_eq
    omega
  exact
    (mirrorsFiles_of_heard announceable registry roomLoaded heard).of_loaded
      sameDisk sameRecords

/--
Whatever a storage server did before it crashed, as long as its directory
describes its records and their contents are small: when it starts again and
registers, whatever the name server did so far, as long as it has room, the name
server says of each of its files what it said itself, and of all other files
what it said before.
-/
theorem registersAgain_of_keepsRestartable
    {World : Type}
    (backend : Backend World)
    (world : World)
    (actions : List (NsAction World))
    (storagePath : {path : CString // path.length ≤ maxTagLength})
    {operations : List StorageOperation}
    (admissible : ∀ operation ∈ operations, operation.Admissible)
    (valid : ∀ operation ∈ operations, operation.NamesValid)
    (keeps :
      GuardedRun ssOperate KeepsRestartable (newServer storagePath)
        operations)
    (small :
      ∀ rec ∈ (runFrom ssOperate (newServer storagePath) operations).files,
        SmallContent
          (runFrom ssOperate (newServer storagePath) operations).disk rec)
    (room :
      (runFrom (nsStep backend) ⟨nsInit, world⟩ actions).ns.files.length +
          (namesToRegister
            (runFrom (nsStep backend) ⟨nsInit, world⟩ actions).ns
            (runFrom ssOperate (newServer storagePath) operations)).length ≤
        nsMaxFiles)
    (server : StorageServerInfo) :
    RegistersAgain (runFrom ssOperate (newServer storagePath) operations)
      server backend (runFrom (nsStep backend) ⟨nsInit, world⟩ actions) := by
  have guarded :=
    (keeps.and (GuardedRun.of_forall_mem admissible)).and
      (GuardedRun.of_forall_mem valid)
  have preserved :
      ∀ (ss : StorageServer) (operation : StorageOperation),
        Sustained ss ∧ AllNamed ss.files →
          (KeepsRestartable ss operation ∧ operation.Admissible) ∧
              operation.NamesValid →
            Sustained (ssOperate ss operation) ∧
              AllNamed (ssOperate ss operation).files :=
    fun _ _ both allowed =>
      ⟨both.1.ssOperate allowed.1.2 allowed.1.1,
        both.2.ssOperate both.1.toRecordsPlaced both.1.undisturbed allowed.2⟩
  have initially :
      Sustained (newServer storagePath) ∧
        AllNamed (newServer storagePath).files :=
    ⟨sustained_newServer storagePath, fun _ listed => by cases listed⟩
  have invariant := guarded.invariant preserved initially
  exact invariant.1.registersAgain invariant.2 small
    (registry_reachable backend world actions) room server

/-- A file that was shared and moved is registered anew. -/
theorem registersAgain_sharedAndMoved :
    RegistersAgain
      (runFrom ssOperate (newServer ⟨str "s", length_shortPath⟩)
        sharedAndMoved)
      secondStorageServer acceptingStorage
      (runFrom (nsStep acceptingStorage) ⟨nsInit, ()⟩
        [.servers [someStorageServer, secondStorageServer],
          .command 1 (str "ada") (.create [str "CREATE", str "plan"])]) :=
  registersAgain_of_keepsRestartable acceptingStorage () _ _
    (by decide +kernel) (by decide +kernel) (by decide +kernel)
    (by decide +kernel) (by decide +kernel) secondStorageServer

end DistributedDocs
