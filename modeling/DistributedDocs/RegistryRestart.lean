import DistributedDocs.AccessLists
import DistributedDocs.RegistryFields

namespace DistributedDocs

/-!
# A name server that restarts

The name server saves its file table, may be stopped, and reads the table back
into an empty registry.  Whatever was done before, every entry can be printed
and parsed, and what has been read back is indexed as it was.
-/

/-! ## Fields that came over the wire -/

/-- Fields of messages, users who logged in, and numbers of the C types. -/
def wireRules : FieldRules where
  charOk c := c ≠ CChar.ofChar '|' ∧ c ≠ newline
  userOk user := validateUsername user = true
  serverOk ip port :=
    (∀ c ∈ ip, c ≠ CChar.ofChar '|' ∧ c ≠ newline) ∧ FitsInt port
  timeOk := FitsLongLong
  countOk := FitsLongLong

/-- A request between users about a file with a valid name. -/
def RequestStorable : CString × CString × CString → Prop
  | (filename, fromUser, toUser) =>
      (validateFilename filename = true ∧ newline ∉ filename) ∧
        validateUsername fromUser = true ∧
          (toUser = [] ∨ validateUsername toUser = true)

theorem safeStrcpy_of_validateUsername
    {user : CString}
    (valid : validateUsername user = true) :
    safeStrcpy user maxUsernameLength = user :=
  safeStrcpy_of_short (validateUsername_iff.mp valid).2.1

theorem validateUsername_copied
    {user : CString}
    (valid : validateUsername user = true) :
    validateUsername (safeStrcpy user maxUsernameLength) = true := by
  rw [safeStrcpy_of_validateUsername valid]
  exact valid

/-- A part of a field without line ends has none. -/
theorem newline_not_mem_copied
    {filename : CString}
    (nameOk : wireRules.FieldOk filename)
    (size : Nat) :
    newline ∉ safeStrcpy filename size :=
  fun member => (nameOk newline (List.mem_of_mem_take member)).2 rfl

theorem fitsLongLong_zero : FitsLongLong 0 :=
  ⟨by decide, by decide⟩

section Stamps

variable
  {now : Int}
  {username : CString}

/-- An entry that its owner has just made. -/
theorem storable_stamped
    (timeOk : FitsLongLong now)
    (userOk : validateUsername username = true)
    {file : FileMetadata}
    (valid : validateFilename file.filename = true)
    (oneLine : newline ∉ file.filename)
    (owned : file.owner = username)
    (ssIp : file.ssIp.length < maxIpLength ∧
      ∀ c ∈ file.ssIp, c ≠ CChar.ofChar '|' ∧ c ≠ newline)
    (ssPort : FitsInt file.ssPort)
    (empty : file.size = 0 ∧ file.wordCount = 0 ∧ file.charCount = 0)
    (unshared : file.readAccessUsers = [] ∧ file.writeAccessUsers = []) :
    (stampedMetadata now username file).Storable where
  filename_valid := valid
  filename_oneLine := oneLine
  owner_valid := .inr (owned ▸ userOk)
  ssIp_short := ssIp.1
  ssIp_plain := ssIp.2
  ssPort_fits := ssPort
  size_fits := empty.1 ▸ fitsLongLong_zero
  wordCount_fits := empty.2.1 ▸ fitsLongLong_zero
  charCount_fits := empty.2.2 ▸ fitsLongLong_zero
  created_fits := timeOk
  modified_fits := timeOk
  lastAccess_fits := timeOk
  lastAccessUser_valid :=
    .inr (validateUsername_copied userOk)
  lastModifiedUser_valid :=
    .inr (validateUsername_copied userOk)
  readers := unshared.1 ▸ UserList.nil
  writers := unshared.2 ▸ UserList.nil

theorem storable_accessed
    (timeOk : FitsLongLong now)
    (userOk : validateUsername username = true)
    {file : FileMetadata}
    (storable : file.Storable) :
    (accessedMetadata now username file).Storable :=
  { storable with
    lastAccess_fits := timeOk
    lastAccessUser_valid :=
      .inr (validateUsername_copied userOk) }

theorem storable_located
    (timeOk : FitsLongLong now)
    (userOk : validateUsername username = true)
    (operation : CString)
    {file : FileMetadata}
    (storable : file.Storable) :
    (locatedMetadata now username operation file).Storable := by
  have accessed := storable_accessed timeOk userOk storable
  unfold locatedMetadata
  split
  · exact
      { accessed with
        modified_fits := timeOk
        lastModifiedUser_valid :=
          .inr (validateUsername_copied userOk) }
  · exact accessed

theorem storable_renamed
    (timeOk : FitsLongLong now)
    (userOk : validateUsername username = true)
    {newPath : CString}
    (valid : validateFilename newPath = true)
    (oneLine : newline ∉ newPath)
    {file : FileMetadata}
    (storable : file.Storable) :
    (renamedMetadata now username newPath file).Storable :=
  { storable with
    filename_valid := validateFilename_copied valid
    filename_oneLine := fun member => oneLine (List.mem_of_mem_take member)
    modified_fits := timeOk
    lastAccess_fits := timeOk
    lastAccessUser_valid :=
      .inr (validateUsername_copied userOk)
    lastModifiedUser_valid :=
      .inr (validateUsername_copied userOk) }

end Stamps

section Reports

variable
  {now : Int}
  {ss : StorageServerInfo}
  {msg : HasFile}

/-- A report changes the fields it brings. -/
theorem storable_updated
    (timeOk : FitsLongLong now)
    (serverOk : wireRules.serverOk ss.clientIp ss.clientPort)
    (fieldsOk : wireRules.HasFileOk msg)
    (recorded : isRecorded msg = true)
    {file : FileMetadata}
    (named : validateFilename file.filename = true ∧ newline ∉ file.filename)
    (owned : file.owner = [] ∨ validateUsername file.owner = true)
    (created : FitsLongLong file.created)
    (accessed : FitsLongLong file.lastAccess)
    (accessedBy :
      file.lastAccessUser = [] ∨ validateUsername file.lastAccessUser = true)
    (modifiedBy :
      file.lastModifiedUser = [] ∨
        validateUsername file.lastModifiedUser = true) :
    (updatedMetadata now ss msg file).Storable where
  filename_valid := named.1
  filename_oneLine := named.2
  owner_valid := by
    simp only [isRecorded, Bool.and_eq_true, Bool.or_eq_true,
      decide_eq_true_eq] at recorded
    simp only [updatedMetadata]
    split
    · exact owned
    · next isGiven =>
      have valid := recorded.2.resolve_left isGiven
      exact .inr (validateUsername_copied valid)
  ssIp_short := length_safeStrcpy_lt _ (by decide)
  ssIp_plain c member := serverOk.1 c (List.mem_of_mem_take member)
  ssPort_fits := serverOk.2
  size_fits := fieldsOk.size
  wordCount_fits := fieldsOk.words
  charCount_fits := fieldsOk.chars
  created_fits := created
  modified_fits := timeOk
  lastAccess_fits := accessed
  lastAccessUser_valid := accessedBy
  lastModifiedUser_valid := modifiedBy
  readers := userList_fileAclParseCsv _
  writers := userList_fileAclParseCsv _

end Reports

/-- Whatever the commands do, each entry can be stored. -/
theorem survive_storable :
    Survive wireRules FileMetadata.Storable RequestStorable where
  slash := ⟨by decide, by decide⟩
  validUser _ valid := valid
  named file storable c member := by
    refine ⟨?_, ?_⟩
    · rintro rfl
      have valid := storable.filename_valid
      simp only [validateFilename, Bool.and_eq_true, List.all_eq_true] at valid
      exact absurd (valid.2 _ member) (by decide)
    · rintro rfl
      exact storable.filename_oneLine member
  relabelled file document storable := { storable with }
  created now username filename target timeOk userOk nameOk valid serverOk := by
    exact storable_stamped timeOk userOk (validateFilename_copied valid)
      (newline_not_mem_copied nameOk _) (safeStrcpy_of_validateUsername userOk)
      ⟨length_safeStrcpy_lt _ (by decide),
        fun c member => serverOk.1 c (List.mem_of_mem_take member)⟩
      serverOk.2 ⟨rfl, rfl, rfl⟩ ⟨rfl, rfl⟩
  folder now username path timeOk userOk pathOk valid := by
    have validName := validateFilename_of_path valid
    exact storable_stamped timeOk userOk (validateFilename_copied validName)
      (newline_not_mem_copied pathOk _) (safeStrcpy_of_validateUsername userOk)
      ⟨by simp [blankMetadata, maxIpLength], by simp [blankMetadata]⟩
      ⟨by simp [blankMetadata], by simp [blankMetadata]⟩
      ⟨rfl, rfl, rfl⟩ ⟨rfl, rfl⟩
  renamed now username newPath file timeOk userOk pathOk valid storable :=
    storable_renamed timeOk userOk (validateFilename_of_path valid)
      (fun member => (pathOk newline member).2 rfl) storable
  accessed _ _ _ timeOk userOk storable :=
    storable_accessed timeOk userOk storable
  located _ _ operation _ timeOk userOk storable :=
    storable_located timeOk userOk operation storable
  granted file user grantRead grantWrite storable userOk := by
    have sets : file.AclsAreSets := ⟨storable.readers, storable.writers⟩
    have after := sets.addAccess userOk grantRead grantWrite
    obtain ⟨readers, writers, same⟩ :=
      fileAddAccess_eq file user grantRead grantWrite
    rw [same] at after ⊢
    exact { storable with readers := after.readers, writers := after.writers }
  revoked file user storable :=
    { storable with
      readers := storable.readers.fileAclRemove user
      writers := storable.writers.fileAclRemove user }
  updated now ss msg file timeOk serverOk fieldsOk recorded storable :=
    storable_updated timeOk serverOk fieldsOk recorded
      ⟨storable.filename_valid, storable.filename_oneLine⟩
      storable.owner_valid storable.created_fits storable.lastAccess_fits
      storable.lastAccessUser_valid storable.lastModifiedUser_valid
  reported now ss msg timeOk serverOk fieldsOk recorded := by
    have valid : validateFilename msg.filename = true := by
      simp only [isRecorded, Bool.and_eq_true] at recorded
      exact recorded.1
    have updated :
        (updatedMetadata now ss msg (blankMetadata msg.filename [])).Storable :=
      storable_updated timeOk serverOk fieldsOk recorded
        ⟨validateFilename_copied valid,
          newline_not_mem_copied fieldsOk.filename _⟩
        (.inl rfl) fitsLongLong_zero fitsLongLong_zero (.inl rfl) (.inl rfl)
    exact { updated with created_fits := timeOk }
  counted now size words chars file timeOk sizeOk wordsOk charsOk storable :=
    { storable with
      size_fits := sizeOk
      wordCount_fits := wordsOk
      charCount_fits := charsOk
      modified_fits := timeOk }
  requested username filename grantRead grantWrite file ns userOk nameOk valid
      storable := by
    refine ⟨⟨validateFilename_copied valid, newline_not_mem_copied nameOk _⟩,
      validateUsername_copied userOk, ?_⟩
    rcases storable.owner_valid with none | owned
    · exact .inl (by simp [newRequest, none, safeStrcpy])
    · exact .inr (validateUsername_copied owned)
  requester _ _ _ storable := storable.2.1

/-! ## The table stays within its bound -/

/-- The entries fit `files[]`. -/
def TableFits (ns : NameServer) : Prop :=
  ns.files.length ≤ nsMaxFiles

section Bound

variable
  {World : Type}
  {backend : Backend World}
  {now : Int}
  {username : CString}
  {command : NsCommand}
  {start looked final : NsState World}

/-- Entries that were there before fit. -/
theorem TableFits.of_subset
    {before after : NameServer}
    (fits : TableFits before)
    (registry : Registry after)
    (subset : ∀ file ∈ after.files, file ∈ before.files) :
    TableFits after :=
  (List.subperm_of_subset registry.coherent.names_nodup.of_map
    subset).length_le.trans fits

theorem TableFits.of_length
    {before after : NameServer}
    (fits : TableFits before)
    (same : after.files.length = before.files.length) :
    TableFits after :=
  same.trans_le fits

theorem length_changeFile
    (index : Nat)
    (change : FileMetadata → FileMetadata)
    (ns : NameServer) :
    (changeFile index change ns).files.length = ns.files.length :=
  List.length_modify change ns.files index

theorem length_granted
    (index position : Nat)
    (req : AccessRequest)
    (state : NsState World) :
    (granted index position req state).ns.files.length =
      state.ns.files.length :=
  length_changeFile index _ state.ns

theorem length_registered
    (known : Looked start looked)
    (filename : CString)
    (target : StorageServerInfo) :
    (registered now username filename target looked).ns.files.length =
      start.ns.files.length + 1 := by
  rw [files_registered now username filename target known, List.length_append,
    List.length_singleton]

/-- No command makes the table larger than it may be. -/
theorem TableFits.effect
    (fits : TableFits start.ns)
    (registry : Registry start.ns)
    (effect : CommandEffect backend now username start command final) :
    TableFits final.ns := by
  have seen :
      ∀ {known : NsState World}, Looked start known → TableFits known.ns :=
    fun isLook => fits.of_length (congrArg List.length isLook.onlyCache.files)
  have finalRegistry := registry.effect effect
  cases effect with
  | looked known =>
      exact seen known
  | unplaced known =>
      exact (seen known).of_length (congrArg List.length (files_select _))
  | createRefused known valid room fresh selected asked =>
      have same := (onlyAsks_createOnStorage _ _).ns_eq asked
      refine fits.of_length (congrArg List.length ?_)
      rw [NsState.onRegistry, same]
      exact files_createRefused now username _ registry known valid fresh
  | created known valid room fresh selected asked =>
      have same := (onlyAsks_createOnStorage _ _).ns_eq asked
      rw [NsState.onRegistry, TableFits, changeServer, same,
        length_registered known]
      exact room
  | folder known valid room fresh =>
      rw [NsState.onRegistry, TableFits, files_registerFile,
        List.length_append, List.length_singleton, known.onlyCache.files]
      exact room
  | moveRefused known normalized planned renames =>
      have same :=
        ns_of_staysWithin (sameRegistry_renameOnStorage [] _)
          (congrArg finalState renames)
      rw [finalState_error] at same
      rw [same]
      exact seen known
  | @moved _ _ _ _ _ _ _ _ plan _ _ known normalized planned renames =>
      have same :=
        ns_of_staysWithin (sameRegistry_renameOnStorage [] _)
          (congrArg finalState renames)
      rw [finalState_ok] at same
      have apart :=
        (planned.of_looked known).renamesApart
          (registry.looked known).coherent.names_nodup
      have files :=
        ((registry.looked known).coherent.applyMove now username apart).2
      rw [← same] at files
      refine (seen known).of_length ?_
      rw [NsState.onRegistry, files, List.length_map, same]
  | deleteRefused known planned deletes =>
      have same :=
        ns_of_staysWithin (sameRegistry_deleteOnStorage _)
          (congrArg finalState deletes)
      rw [finalState_error] at same
      rw [same]
      exact seen known
  | @deleted _ _ _ _ plan _ _ known planned deletes =>
      have same :=
        ns_of_staysWithin (sameRegistry_deleteOnStorage _)
          (congrArg finalState deletes)
      rw [finalState_ok] at same
      have members := ((registry.looked known).applyDelete plan).2
      rw [← same] at members
      refine (seen known).of_subset finalRegistry fun file member => ?_
      rw [← same]
      exact ((members file).mp member).1
  | copyAnswered known destination home asked =>
      have same := (OnlyAsks.sendAndWait _ _).ns_eq asked
      exact same ▸ seen known
  | copied known source destination home asked =>
      have same := (OnlyAsks.sendAndWait _ _).ns_eq asked
      exact (same ▸ seen known).of_length (length_changeFile _ _ _)
  | located known entry =>
      refine (seen known).of_length ?_
      rw [NsState.onRegistry, (onlyCacheChanged_fileCacheStore _ _ _).files,
        length_changeFile]
  | requested known valid parsed entry =>
      exact (seen known).of_length rfl
  | approveRefused known request numbered isPending addressed entry asked =>
      have same := (onlyAsks_approveOnStorage _ _).ns_eq asked
      refine ((seen known).of_length ?_).of_length (length_changeFile _ _ _)
      rw [same]
      exact length_granted _ _ _ _
  | approved known request numbered isPending addressed entry asked =>
      have same := (onlyAsks_approveOnStorage _ _).ns_eq asked
      rw [same]
      exact (seen known).of_length (length_granted _ _ _ _)
  | rejected known =>
      exact (seen known).of_length rfl
  | notAdded known valid parsed entry owned other full =>
      exact (seen known).of_length (length_changeFile _ _ _)
  | addRefused known valid parsed entry owned other asked =>
      have same := (onlyAsks_accessOnStorage _ _).ns_eq asked
      refine ((seen known).of_length ?_).of_length (length_changeFile _ _ _)
      rw [same]
      exact length_changeFile _ _ _
  | added known valid parsed entry owned other room asked =>
      have same := (onlyAsks_accessOnStorage _ _).ns_eq asked
      rw [same]
      exact (seen known).of_length (length_changeFile _ _ _)
  | removeRefused known valid entry owned listed asked =>
      have same := (onlyAsks_accessOnStorage _ _).ns_eq asked
      refine ((seen known).of_length ?_).of_length (length_changeFile _ _ _)
      rw [same]
      exact length_changeFile _ _ _
  | removed known valid entry owned listed asked =>
      have same := (onlyAsks_accessOnStorage _ _).ns_eq asked
      rw [same]
      exact (seen known).of_length (length_changeFile _ _ _)

/-- No action makes the table larger than it may be. -/
theorem TableFits.nsStep
    {state : NsState World}
    (fits : TableFits state.ns)
    (registry : Registry state.ns)
    (action : NsAction World) :
    TableFits (DistributedDocs.nsStep backend state action).ns := by
  cases action with
  | command now username command =>
      exact fits.effect registry
        (effect_of_command backend now username registry.coherent command)
  | hasFile now ss msg =>
      unfold DistributedDocs.nsStep
      simp only
      split
      · next ns applied =>
        unfold applyHasFile at applied
        split at applied
        · cases applied
        · split at applied
          · cases applied
          · split at applied
            · cases applied
            · split at applied
              · cases applied
                refine fits.of_length ?_
                rw [(onlyCacheChanged_fileCacheStore _ _ _).files,
                  length_changeFile]
              · split at applied
                · cases applied
                · next room =>
                  cases applied
                  rw [TableFits, files_registerFile, List.length_append,
                    List.length_singleton]
                  exact not_le.mp room
      · exact fits
  | filesDone address =>
      exact fits
  | writeComplete now ss msg =>
      unfold DistributedDocs.nsStep NsState.onRegistry applyWriteComplete
      refine fits.of_length ?_
      simp only
      split
      · split
        · have counted :
              ∀ filename index change,
                (fileCacheStore filename index
                    (changeFile index change state.ns)).files.length =
                  state.ns.files.length := by
            intro filename index change
            rw [(onlyCacheChanged_fileCacheStore _ _ _).files,
              length_changeFile]
          split <;> exact counted _ _ _
        · rfl
      · rfl
  | servers storageServers =>
      exact fits
  | storage world =>
      exact fits

end Bound

/-! ## Reading the table back -/

/-- A registry with an empty cache, whose index is that of its entries. -/
structure FreshlyIndexed (ns : NameServer) : Prop where
  coherent : Coherent ns
  uncached : ∀ entry ∈ ns.fileCache, entry.valid = false

theorem freshlyIndexed_clearedTable (ns : NameServer) :
    FreshlyIndexed (clearedTable ns) := by
  have uncached :
      ∀ entry ∈ (clearedTable ns).fileCache, entry.valid = false := by
    intro entry member
    rw [List.eq_of_mem_replicate member]
    rfl
  exact
    ⟨{ names_nodup := List.nodup_nil
       index_wellFormed := ChainedIndex.wellFormed_empty
       index_agrees := fun _ => rfl
       cache_sound := LookupCache.sound_of_free uncached }, uncached⟩

/-- An entry with a new name is indexed at the end of the table. -/
theorem FreshlyIndexed.addLoaded
    {ns : NameServer}
    (indexed : FreshlyIndexed ns)
    {file : FileMetadata}
    (fresh : plainScan ns.files file.filename = none) :
    FreshlyIndexed (DistributedDocs.addLoaded file ns) := by
  have short := file.filename_short
  have coherent := indexed.coherent
  refine ⟨?_, indexed.uncached⟩
  exact
    { names_nodup := by
        change ((ns.files ++ [file]).map FileMetadata.filename).Nodup
        rw [List.map_append, List.map_singleton, ← List.concat_eq_append,
          List.nodup_concat]
        refine ⟨fun member => ?_, coherent.names_nodup⟩
        obtain ⟨other, present, same⟩ := List.mem_map.mp member
        exact plainScan_eq_none_iff.mp fresh other present same
      index_wellFormed := by
        simp only [DistributedDocs.addLoaded, fileIndexInsert,
          safeStrcpy_of_short short]
        exact coherent.index_wellFormed.insert _ _
      index_agrees := by
        intro filename
        simp only [fileIndexFind, DistributedDocs.addLoaded, fileIndexInsert,
          safeStrcpy_of_short short, ChainedIndex.find_insert,
          plainScan_append fresh]
        split
        · rfl
        · exact coherent.index_agrees filename
      cache_sound := LookupCache.sound_of_free indexed.uncached }

theorem names_entriesReadBack
    (files : List FileMetadata)
    (position document : Nat) :
    (entriesReadBack position document files).map FileMetadata.filename =
      files.map FileMetadata.filename := by
  induction files generalizing position document with
  | nil =>
      rfl
  | cons file rest inductionHypothesis =>
      rw [entriesReadBack, List.map_cons, List.map_cons, inductionHypothesis]
      rfl

/-- Every entry that is read back is indexed. -/
theorem freshlyIndexed_loadLines
    {files : List FileMetadata}
    (storable : ∀ file ∈ files, file.Storable)
    {loading : Loading}
    (indexed : FreshlyIndexed loading.ns)
    (apart :
      ((loading.ns.files ++ files).map FileMetadata.filename).Nodup)
    (room : loading.ns.files.length + files.length ≤ nsMaxFiles) :
    FreshlyIndexed
      (loadLines (databasePieces (entriesText files)) loading) := by
  induction files generalizing loading with
  | nil =>
      simpa [entriesText, databasePieces, fgetsPieces, loadLines] using indexed
  | cons file rest inductionHypothesis =>
      have headStorable := storable file List.mem_cons_self
      rw [List.length_cons] at room
      have fresh : plainScan loading.ns.files file.filename = none := by
        refine plainScan_eq_none_iff.mpr fun other present same => ?_
        rw [List.map_append, List.nodup_append] at apart
        exact apart.2.2 _ (List.mem_map_of_mem present) _ List.mem_cons_self
          same
      rw [entriesText]
      rcases Nat.lt_or_ge (loading.ns.files.length + 1) nsMaxFiles with
        space | full
      · rw [loadLines_entry headStorable space]
        refine inductionHypothesis
          (fun other listed =>
            storable other (List.mem_cons_of_mem file listed))
          (indexed.addLoaded fresh) ?_ ?_
        · simpa [addLoaded, fileIndexInsert, FileMetadata.readBack] using apart
        · simp only [addLoaded, fileIndexInsert, List.length_append,
            List.length_singleton]
          omega
      · rw [loadLines_lastEntry headStorable (by omega)]
        exact indexed.addLoaded fresh

/-- What has been saved is indexed when it is read back. -/
theorem freshlyIndexed_nsLoadMetadata
    {ns : NameServer}
    (storable : ∀ file ∈ ns.files, file.Storable)
    (apart : (ns.files.map FileMetadata.filename).Nodup)
    (fits : TableFits ns)
    (fresh : NameServer) :
    FreshlyIndexed (nsLoadMetadata (some (nsSaveMetadata ns)) fresh) := by
  rw [nsLoadMetadata_saved fits]
  exact freshlyIndexed_loadLines storable (freshlyIndexed_clearedTable fresh)
    (by simpa [clearedTable] using apart)
    (by simpa [clearedTable, TableFits] using fits)

/-! ## Runs with restarts -/

/-- What happens to a name server whose table is saved now and then. -/
inductive DurableStep (World : Type) where
  | acts (action : NsAction World)
  | save
  | restart

/-- The name server, and what was last written to its database. -/
structure DurableState (World : Type) where
  state : NsState World
  database : Option CString

section Restarting

variable {World : Type} (backend : Backend World)

/-- One step; the storage servers go on when the name server restarts. -/
def durableStep (current : DurableState World) :
    DurableStep World → DurableState World
  | .acts action =>
      { current with state := nsStep backend current.state action }
  | .save =>
      { current with database := some (nsSaveMetadata current.state.ns) }
  | .restart =>
      { current with
        state :=
          ⟨nsLoadMetadata current.database nsInit, current.state.world⟩ }

/-- A name server that has never saved anything. -/
def neverSaved (world : World) : DurableState World :=
  ⟨⟨nsInit, world⟩, none⟩

/-- Everything a step brings in came over the wire. -/
def DurableStep.Wired : DurableStep World → Prop
  | .acts action => wireRules.Allows action
  | .save | .restart => True

/-- What a restart makes of a saved registry. -/
structure RestartKeeps (saved restarted : NameServer) : Prop where
  registry : Registry restarted
  lookups :
    ∀ filename,
      (fileLookupLocked filename restarted).1 =
        (fileLookupLocked filename saved).1
  entries :
    restarted.files.map (FileMetadata.unshared 0) =
      saved.files.map (FileMetadata.unshared 0)
  users :
    restarted.files.map FileMetadata.printed =
        saved.files.map FileMetadata.printed ↔
      FitsDatabase saved.files

/-- A registry that can be saved. -/
structure Savable (ns : NameServer) : Prop where
  registry : Registry ns
  storable : ∀ file ∈ ns.files, file.Storable
  fits : TableFits ns

/-- What holds in every state of a run. -/
structure Durable (current : DurableState World) : Prop where
  registry : Registry current.state.ns
  fields :
    FieldsHold wireRules FileMetadata.Storable RequestStorable
      current.state.ns
  fits : TableFits current.state.ns
  database :
    ∀ text ∈ current.database,
      ∃ saved, Savable saved ∧ text = nsSaveMetadata saved

variable {backend}

theorem Durable.savable
    {current : DurableState World}
    (durable : Durable current) :
    Savable current.state.ns :=
  ⟨durable.registry, durable.fields.entries, durable.fits⟩

theorem unshared_entriesReadBack
    (files : List FileMetadata)
    (position document : Nat) :
    (entriesReadBack position document files).map (FileMetadata.unshared 0) =
      files.map (FileMetadata.unshared 0) := by
  induction files generalizing position document with
  | nil =>
      rfl
  | cons file rest inductionHypothesis =>
      rw [entriesReadBack, List.map_cons, List.map_cons, inductionHypothesis]
      rfl

/-- What has been read back can be saved again. -/
theorem storable_entriesReadBack
    {files : List FileMetadata}
    (storable : ∀ file ∈ files, file.Storable)
    (position document : Nat) :
    ∀ file ∈ entriesReadBack position document files, file.Storable := by
  induction files generalizing position document with
  | nil =>
      intro file none
      cases none
  | cons file rest inductionHypothesis =>
      intro loaded member
      rw [entriesReadBack, List.mem_cons] at member
      rcases member with rfl | later
      · have headStorable := storable file List.mem_cons_self
        have list :
            ∀ users, UserList
              (if decide (position + 1 = nsMaxFiles) = true then []
                else fileAclParseCsv (csv users)) := by
          intro users
          split
          · exact UserList.nil
          · exact userList_fileAclParseCsv _
        exact
          { headStorable with
            readers := list file.readAccessUsers
            writers := list file.writeAccessUsers }
      · exact inductionHypothesis
          (fun other listed =>
            storable other (List.mem_cons_of_mem file listed))
          (position + 1) (document + 1) loaded later

namespace Savable

variable {saved : NameServer}

theorem restartKeeps
    (savable : Savable saved)
    (fresh : NameServer) :
    RestartKeeps saved (nsLoadMetadata (some (nsSaveMetadata saved)) fresh) := by
  have files := files_nsLoadMetadata savable.storable savable.fits fresh
  have indexed :=
    freshlyIndexed_nsLoadMetadata savable.storable
      savable.registry.coherent.names_nodup savable.fits fresh
  have trips :=
    roundTrips_iff_fitsDatabase savable.storable savable.fits fresh
  refine ⟨⟨indexed.coherent, ?_⟩, fun filename => ?_, ?_, ?_⟩
  · intro file member
    rw [files] at member
    exact nonempty_of_validateFilename
      (storable_entriesReadBack savable.storable _ _ file
        member).filename_valid
  · rw [indexed.coherent.fileLookupLocked_eq,
      savable.registry.coherent.fileLookupLocked_eq, files]
    exact plainScan_congr (names_entriesReadBack _ _ _)
  · rw [files]
    exact unshared_entriesReadBack _ _ _
  · refine ⟨fun same => ?_, fun isFit => (trips.mpr isFit).entries⟩
    have readBack :=
      @printed_entriesReadBack_iff saved.files savable.storable 0
        (by rw [Nat.zero_add]; exact savable.fits) fresh.nextDocument
    rw [← files, Nat.zero_add] at readBack
    obtain ⟨lists, last⟩ := readBack.mp same
    exact ⟨lists, last⟩

/-- A registry that has been read back can be saved. -/
theorem restarted
    (savable : Savable saved)
    (fresh : NameServer) :
    Savable (nsLoadMetadata (some (nsSaveMetadata saved)) fresh) := by
  have files := files_nsLoadMetadata savable.storable savable.fits fresh
  refine ⟨(savable.restartKeeps fresh).registry, ?_, ?_⟩
  · rw [files]
    exact storable_entriesReadBack savable.storable _ _
  · have lengths := congrArg List.length (savable.restartKeeps fresh).entries
    rw [List.length_map, List.length_map] at lengths
    exact savable.fits.of_length lengths

end Savable

theorem durable_neverSaved (world : World) : Durable (neverSaved world) where
  registry := registry_nsInit
  fields :=
    ⟨by simp [neverSaved, nsInit], by simp [neverSaved, nsInit],
      by simp [neverSaved, nsInit, connectionsOf]⟩
  fits := Nat.zero_le _
  database := by simp [neverSaved]

/-- Reading the lines of the table leaves requests and servers alone. -/
theorem sameOutside_loadLines
    (lines : List CString)
    (loading : Loading) :
    (loadLines lines loading).accessRequests = loading.ns.accessRequests ∧
      (loadLines lines loading).storageServers =
        loading.ns.storageServers := by
  induction lines generalizing loading with
  | nil =>
      exact ⟨rfl, rfl⟩
  | cons line rest inductionHypothesis =>
      have step :
          (loadLine line loading).ns.accessRequests =
              loading.ns.accessRequests ∧
            (loadLine line loading).ns.storageServers =
              loading.ns.storageServers := by
        unfold loadLine
        simp only
        split
        · exact ⟨rfl, rfl⟩
        · split
          · split <;> exact ⟨rfl, rfl⟩
          · split
            · exact ⟨rfl, rfl⟩
            · split <;> exact ⟨rfl, rfl⟩
      rw [loadLines]
      split
      · obtain ⟨requests, servers⟩ := inductionHypothesis (loadLine line loading)
        exact ⟨requests.trans step.1, servers.trans step.2⟩
      · exact ⟨rfl, rfl⟩

/-- A restarted name server has no requests and no servers. -/
theorem Savable.fields
    {saved : NameServer}
    (savable : Savable saved) :
    FieldsHold wireRules FileMetadata.Storable RequestStorable
      (nsLoadMetadata (some (nsSaveMetadata saved)) nsInit) := by
  obtain ⟨requests, servers⟩ :=
    sameOutside_loadLines (databasePieces (entriesText saved.files))
      ⟨false, clearedTable nsInit⟩
  rw [← nsLoadMetadata_saved savable.fits] at requests servers
  refine ⟨(savable.restarted nsInit).storable, ?_, ?_⟩
  · rw [requests]
    simp [clearedTable, nsInit]
  · rw [connectionsOf, servers]
    simp [clearedTable, nsInit]

/-- Every step that comes over the wire. -/
theorem Durable.step
    {current : DurableState World}
    (durable : Durable current)
    {step : DurableStep World}
    (wired : step.Wired) :
    Durable (durableStep backend current step) := by
  cases step with
  | acts action =>
      exact
        { registry := durable.registry.nsStep action
          fields :=
            durable.fields.nsStep survive_storable durable.registry wired
          fits := durable.fits.nsStep durable.registry action
          database := durable.database }
  | save =>
      refine { durable with database := fun text isText => ?_ }
      rw [durableStep, Option.mem_some_iff] at isText
      exact ⟨_, durable.savable, isText.symm⟩
  | restart =>
      obtain ⟨state, database⟩ := current
      cases database with
      | none =>
          exact durable_neverSaved state.world
      | some text =>
          obtain ⟨saved, savable, rfl⟩ := durable.database text rfl
          have restarted := savable.restarted nsInit
          exact
            { registry := restarted.registry
              fields := savable.fields
              fits := restarted.fits
              database := durable.database }

/-- What holds in every state of a run. -/
theorem durable_reachable
    (backend : Backend World)
    (world : World)
    {steps : List (DurableStep World)}
    (wired : ∀ step ∈ steps, step.Wired) :
    Durable (runFrom (durableStep backend) (neverSaved world) steps) :=
  GuardedRun.invariant (fun _ _ durable isWired => durable.step isWired)
    (durable_neverSaved world) (.of_forall_mem wired)

/-- Only saving writes the database. -/
theorem database_runFrom
    {steps : List (DurableStep World)}
    (unsaved : ∀ step ∈ steps, step ≠ .save)
    (current : DurableState World) :
    (runFrom (durableStep backend) current steps).database =
      current.database := by
  induction steps generalizing current with
  | nil =>
      rfl
  | cons step rest inductionHypothesis =>
      have kept : (durableStep backend current step).database =
          current.database := by
        cases step with
        | acts action => rfl
        | save => exact absurd rfl (unsaved .save List.mem_cons_self)
        | restart => rfl
      rw [runFrom_cons,
        inductionHypothesis fun later member =>
          unsaved later (List.mem_cons_of_mem step member),
        kept]

/--
Whatever came over the wire before, and however often the name server has
restarted already: a restart gives the table that was saved last, with an index
that finds every entry where it was, and with the access lists if they fit.
-/
theorem restart_keeps_saved_table
    (backend : Backend World)
    (world : World)
    {before between : List (DurableStep World)}
    (wired : ∀ step ∈ before, step.Wired)
    (unsaved : ∀ step ∈ between, step ≠ .save) :
    RestartKeeps
      (runFrom (durableStep backend) (neverSaved world) before).state.ns
      (runFrom (durableStep backend) (neverSaved world)
        (before ++ .save :: between ++ [.restart])).state.ns := by
  have savable := (durable_reachable backend world wired).savable
  have kept := savable.restartKeeps nsInit
  rw [List.append_assoc, runFrom_append, List.cons_append, runFrom_cons,
    runFrom_append]
  have database := @database_runFrom World backend between unsaved
  simp only [runFrom_cons, runFrom_nil, durableStep, database]
  exact kept

end Restarting

/-- A file is made and shared before the table is saved. -/
def sharedBeforeSaving : List (DurableStep Unit) :=
  [.acts (.servers [someStorageServer]),
    .acts (.command 1 (str "ada") (.create [str "CREATE", str "plan"])),
    .acts
      (.command 2 (str "ada")
        (.addAccess [str "ADDACCESS", str "plan", str "eve", str "R"]))]

theorem wired_sharedBeforeSaving :
    ∀ step ∈ sharedBeforeSaving, step.Wired := by
  have times : FitsLongLong 1 ∧ FitsLongLong 2 := by
    constructor <;> constructor <;> decide
  have ada : validateUsername (str "ada") = true := by decide +kernel
  intro step member
  simp only [sharedBeforeSaving, List.mem_cons, List.not_mem_nil, or_false]
    at member
  rcases member with rfl | rfl | rfl
  · intro ss isServer
    rw [List.mem_singleton.mp isServer]
    exact ⟨by decide +kernel, by decide, by decide⟩
  · refine ⟨times.1, ada, ?_⟩
    change ∀ field ∈ [str "CREATE", str "plan"], ∀ c ∈ field,
      c ≠ CChar.ofChar '|' ∧ c ≠ newline
    decide +kernel
  · refine ⟨times.2, ada, ?_⟩
    change ∀ field ∈ [str "ADDACCESS", str "plan", str "eve", str "R"],
      ∀ c ∈ field, c ≠ CChar.ofChar '|' ∧ c ≠ newline
    decide +kernel

/-- What is done after the table was saved is gone, the reader is not. -/
theorem restart_keeps_shared_plan :
    (∀ step ∈ sharedBeforeSaving, step.Wired) ∧
      RestartKeeps
        (runFrom (durableStep acceptingStorage) (neverSaved ())
          sharedBeforeSaving).state.ns
        (runFrom (durableStep acceptingStorage) (neverSaved ())
          (sharedBeforeSaving ++
            .save ::
              [.acts
                (.command 3 (str "ada")
                  (.remAccess [str "REMACCESS", str "plan", str "eve"]))] ++
              [.restart])).state.ns :=
  ⟨wired_sharedBeforeSaving,
    restart_keeps_saved_table acceptingStorage () wired_sharedBeforeSaving
      (by simp)⟩

end DistributedDocs
