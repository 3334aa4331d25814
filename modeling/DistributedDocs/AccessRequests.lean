import DistributedDocs.NameServerCoherence

namespace DistributedDocs

/-!
# Access requests and the owners they are addressed to

An access request records the name and the owner of an entry; `APPROVEACCESS`
looks the name up again.  As long as no other document gets a name for which a
request is pending, every change of an access list is its owner's, and what is
approved is what was requested.  `MOVE` leaves requests pending under the name
it gives up, which is where this can fail.
-/

/-- Whether a request for a name is pending that is not about the document. -/
def pendingElsewhere
    (filename : CString)
    (document : Option Nat)
    (ns : NameServer) : Bool :=
  ns.accessRequests.any fun req =>
    (req.isPending && req.filename = filename) &&
      some req.document ≠ document

/-- Whether `MOVE` gives a requested name to another document. -/
def movesOntoRequested
    (srcPath destFolder : CString)
    (ns : NameServer) : Bool :=
  match nsNormalizeDestination destFolder, nsSplitParentChild srcPath with
  | some destination, some (_, baseName) =>
      match finalRootPath destination baseName with
      | some finalRoot =>
          ns.files.any fun source =>
            source.filename = srcPath &&
              ns.files.any fun file =>
                takenAlong srcPath source.isDirectory file.filename &&
                  (movedPath srcPath finalRoot file.filename).any
                    fun newPath =>
                      pendingElsewhere newPath (some file.document) ns
      | none => false
  | _, _ => false

/-- Whether a command gives a requested name to another document. -/
def reusesRequestedName (command : NsCommand) (ns : NameServer) : Bool :=
  match command with
  | .create (_ :: filename :: _) | .createFolder (_ :: filename :: _) =>
      (plainScan ns.files filename).isNone &&
        pendingElsewhere filename none ns
  | .move (_ :: srcPath :: destFolder :: _) =>
      movesOntoRequested srcPath destFolder ns
  | _ => false

/-- Pending requests are about the entries that have their names. -/
structure RequestsSound (ns : NameServer) : Prop where
  owner_short :
    ∀ file ∈ ns.files, file.owner.length < maxUsernameLength
  documents_apart :
    ∀ file ∈ ns.files, ∀ other ∈ ns.files,
      file.document = other.document → file = other
  documents_old : ∀ file ∈ ns.files, file.document < ns.nextDocument
  requests_old :
    ∀ req ∈ ns.accessRequests, req.document < ns.nextDocument
  named :
    ∀ req ∈ ns.accessRequests, req.isPending = true →
      ∀ file ∈ ns.files, file.filename = req.filename →
        file.document = req.document
  addressed :
    ∀ req ∈ ns.accessRequests, req.isPending = true →
      ∀ file ∈ ns.files, file.document = req.document →
        file.owner = req.toUser

/-- The lists of two states of an entry are the same. -/
def SameAcl (before after : FileMetadata) : Prop :=
  after.readAccessUsers = before.readAccessUsers ∧
    after.writeAccessUsers = before.writeAccessUsers

/--
The command may change the lists of an entry: its user is the owner, and an
approval is of a request about the document.
-/
def MayChangeAcl
    (username : CString)
    (command : NsCommand)
    (before : NameServer)
    (file : FileMetadata) : Prop :=
  file.owner = username ∧
    ∀ type idField rest,
      command = .approveAccess (type :: idField :: rest) →
        ∃ req ∈ before.accessRequests,
          req.id = atoi idField ∧ req.isPending = true ∧
            req.document = file.document

/-- The requests of before, some of them no longer pending. -/
def RequestsKept (before after : List AccessRequest) : Prop :=
  ∀ later ∈ after, ∃ earlier ∈ before,
    later.filename = earlier.filename ∧ later.toUser = earlier.toUser ∧
      later.document = earlier.document ∧
        (later.isPending = true → earlier.isPending = true)

/--
What a command does to entries and requests: the entries that remain are as
`change` leaves them, and there may be a new entry.
-/
structure AccessStep
    (username : CString)
    (command : NsCommand)
    (change : FileMetadata → FileMetadata)
    (new : Option FileMetadata)
    (before after : NameServer) : Prop where
  entries :
    ∀ later ∈ after.files,
      (∃ earlier ∈ before.files, later = change earlier) ∨
        new = some later
  sameDocument : ∀ file, (change file).document = file.document
  sameOwner : ∀ file, (change file).owner = file.owner
  newEntry :
    ∀ file, new = some file →
      file.document = before.nextDocument ∧
        file.owner.length < maxUsernameLength ∧
          before.nextDocument < after.nextDocument ∧
            pendingElsewhere file.filename none before = false
  older : before.nextDocument ≤ after.nextDocument
  names :
    ∀ file ∈ before.files,
      (change file).filename = file.filename ∨
        pendingElsewhere (change file).filename (some file.document)
          before = false
  requests :
    ∀ later ∈ after.accessRequests,
      (∃ earlier ∈ before.accessRequests,
          later.filename = earlier.filename ∧
            later.toUser = earlier.toUser ∧
              later.document = earlier.document ∧
                (later.isPending = true → earlier.isPending = true)) ∨
        (new = none ∧ (∀ file, change file = file) ∧
          ∃ file ∈ before.files,
            later.filename = file.filename ∧ later.toUser = file.owner ∧
              later.document = file.document)
  access :
    ∀ file ∈ before.files,
      SameAcl file (change file) ∨
        MayChangeAcl username command before file

section Sound

variable
  {username : CString}
  {command : NsCommand}
  {change : FileMetadata → FileMetadata}
  {new : Option FileMetadata}
  {before after : NameServer}

theorem of_pendingElsewhere
    {filename : CString}
    {document : Option Nat}
    {ns : NameServer}
    (absent : pendingElsewhere filename document ns = false)
    {req : AccessRequest}
    (member : req ∈ ns.accessRequests)
    (isPending : req.isPending = true)
    (named : req.filename = filename) :
    some req.document = document := by
  simp only [pendingElsewhere, List.any_eq_false] at absent
  have refused := absent req member
  simpa [isPending, named] using refused

/-- Such a step keeps the requests sound. -/
theorem AccessStep.sound
    (step : AccessStep username command change new before after)
    (namesNodup : (before.files.map FileMetadata.filename).Nodup)
    (sound : RequestsSound before) :
    RequestsSound after where
  owner_short file member := by
    rcases step.entries file member with ⟨earlier, present, rfl⟩ | isNew
    · rw [step.sameOwner]
      exact sound.owner_short earlier present
    · exact (step.newEntry file isNew).2.1
  documents_apart file member other otherMember same := by
    rcases step.entries file member with ⟨earlier, present, rfl⟩ | isNew
    · rcases step.entries other otherMember with
        ⟨otherEarlier, otherPresent, rfl⟩ | otherNew
      · rw [step.sameDocument, step.sameDocument] at same
        rw [sound.documents_apart earlier present otherEarlier otherPresent
          same]
      · have old := sound.documents_old earlier present
        rw [step.sameDocument, (step.newEntry other otherNew).1] at same
        omega
    · rcases step.entries other otherMember with
        ⟨otherEarlier, otherPresent, rfl⟩ | otherNew
      · have old := sound.documents_old otherEarlier otherPresent
        rw [step.sameDocument, (step.newEntry file isNew).1] at same
        omega
      · exact Option.some.inj (isNew.symm.trans otherNew)
  documents_old file member := by
    rcases step.entries file member with ⟨earlier, present, rfl⟩ | isNew
    · rw [step.sameDocument]
      exact (sound.documents_old earlier present).trans_le step.older
    · obtain ⟨document, _, grows, _⟩ := step.newEntry file isNew
      rw [document]
      exact grows
  requests_old req member := by
    rcases step.requests req member with
      ⟨earlier, present, _, _, same, _⟩ | ⟨_, _, file, present, _, _, same⟩
    · rw [same]
      exact (sound.requests_old earlier present).trans_le step.older
    · rw [same]
      exact (sound.documents_old file present).trans_le step.older
  named req member isPending file fileMember sameName := by
    rcases step.requests req member with
      ⟨earlierReq, reqPresent, reqName, _, reqDocument, stillPending⟩ |
      ⟨noNew, unchanged, requested, present, reqName, _, reqDocument⟩
    · have wasPending := stillPending isPending
      rw [reqName] at sameName
      rw [reqDocument]
      rcases step.entries file fileMember with
        ⟨earlier, present, rfl⟩ | isNew
      · rw [step.sameDocument]
        rcases step.names earlier present with kept | notElsewhere
        · exact sound.named earlierReq reqPresent wasPending earlier present
            (kept.symm.trans sameName)
        · exact (Option.some.inj (of_pendingElsewhere notElsewhere reqPresent
            wasPending sameName.symm)).symm
      · obtain ⟨_, _, _, notPending⟩ := step.newEntry file isNew
        cases of_pendingElsewhere notPending reqPresent wasPending
          sameName.symm
    · rcases step.entries file fileMember with
        ⟨earlier, earlierPresent, rfl⟩ | isNew
      · rw [unchanged, reqName] at sameName
        rw [unchanged, reqDocument,
          eq_of_filename namesNodup earlierPresent present sameName]
      · rw [noNew] at isNew
        cases isNew
  addressed req member isPending file fileMember same := by
    rcases step.requests req member with
      ⟨earlierReq, reqPresent, _, reqUser, reqDocument, stillPending⟩ |
      ⟨noNew, unchanged, requested, present, _, reqUser, reqDocument⟩
    · rw [reqDocument] at same
      rw [reqUser]
      rcases step.entries file fileMember with
        ⟨earlier, earlierPresent, rfl⟩ | isNew
      · rw [step.sameDocument] at same
        rw [step.sameOwner]
        exact sound.addressed earlierReq reqPresent (stillPending isPending)
          earlier earlierPresent same
      · have old := sound.requests_old earlierReq reqPresent
        rw [(step.newEntry file isNew).1] at same
        omega
    · rcases step.entries file fileMember with
        ⟨earlier, earlierPresent, rfl⟩ | isNew
      · rw [step.sameDocument, reqDocument] at same
        rw [step.sameOwner, reqUser,
          sound.documents_apart earlier earlierPresent requested present same]
      · rw [noNew] at isNew
        cases isNew

end Sound

/-! ## The steps of commands -/

section Steps

variable
  {World : Type}
  {backend : Backend World}
  {now : Int}
  {username : CString}
  {start looked final : NsState World}
  {command : NsCommand}

/-- A step that keeps all requests and leaves the entries as `change` does. -/
theorem accessStep_of_change
    (change : FileMetadata → FileMetadata)
    {before after : NameServer}
    (entries :
      ∀ later ∈ after.files, ∃ earlier ∈ before.files, later = change earlier)
    (sameName : ∀ file, (change file).filename = file.filename)
    (sameDocument : ∀ file, (change file).document = file.document)
    (sameOwner : ∀ file, (change file).owner = file.owner)
    (older : before.nextDocument ≤ after.nextDocument)
    (requests : RequestsKept before.accessRequests after.accessRequests)
    (access :
      ∀ file ∈ before.files,
        SameAcl file (change file) ∨
          MayChangeAcl username command before file) :
    AccessStep username command change none before after where
  entries later member := Or.inl (entries later member)
  sameDocument := sameDocument
  sameOwner := sameOwner
  newEntry _ isNew := by cases isNew
  older := older
  names file _ := Or.inl (sameName file)
  requests later member := Or.inl (requests later member)
  access := access

theorem RequestsKept.refl (requests : List AccessRequest) :
    RequestsKept requests requests :=
  fun later member => ⟨later, member, rfl, rfl, rfl, id⟩

/-- A change of an entry that leaves alone which document it is, and whose. -/
structure KeepsIdentity (change : FileMetadata → FileMetadata) : Prop where
  filename : ∀ file, (change file).filename = file.filename
  document : ∀ file, (change file).document = file.document
  owner : ∀ file, (change file).owner = file.owner

theorem KeepsIdentity.comp
    {first second : FileMetadata → FileMetadata}
    (firstKeeps : KeepsIdentity first)
    (secondKeeps : KeepsIdentity second) :
    KeepsIdentity (second ∘ first) where
  filename file :=
    (secondKeeps.filename _).trans (firstKeeps.filename file)
  document file :=
    (secondKeeps.document _).trans (firstKeeps.document file)
  owner file := (secondKeeps.owner _).trans (firstKeeps.owner file)

theorem keepsIdentity_fileAddAccess
    (user : CString)
    (grantRead grantWrite : Bool) :
    KeepsIdentity fun file =>
      (fileAddAccess file user grantRead grantWrite).2 := by
  constructor <;> intro file <;>
    obtain ⟨readers, writers, same⟩ :=
      fileAddAccess_eq file user grantRead grantWrite <;>
    simp only [same]

theorem keepsIdentity_fileRemoveAccess (user : CString) :
    KeepsIdentity fun file => (fileRemoveAccess file user).2 :=
  ⟨fun _ => rfl, fun _ => rfl, fun _ => rfl⟩

theorem keepsIdentity_accessedMetadata
    (now : Int)
    (username : CString) :
    KeepsIdentity (accessedMetadata now username) :=
  ⟨fun _ => rfl, fun _ => rfl, fun _ => rfl⟩

theorem keepsIdentity_locatedMetadata
    (now : Int)
    (username operation : CString) :
    KeepsIdentity (locatedMetadata now username operation) := by
  constructor <;> intro file <;> unfold locatedMetadata <;> split <;> rfl

/-- A step that changes the entry of one name. -/
theorem accessStep_of_modify
    {before after : NameServer}
    (coherent : Coherent before)
    {filename : CString}
    {index : Nat}
    {file : FileMetadata}
    (entry : EntryAt before filename index file)
    {change : FileMetadata → FileMetadata}
    (files : after.files = before.files.modify index change)
    (keeps : KeepsIdentity change)
    (older : before.nextDocument ≤ after.nextDocument)
    (requests : RequestsKept before.accessRequests after.accessRequests)
    (access :
      SameAcl file (change file) ∨
        MayChangeAcl username command before file) :
    ∃ change, AccessStep username command change none before after := by
  rw [modify_eq_map coherent.names_nodup entry.found] at files
  refine ⟨_, accessStep_of_change
    (fun file => if file.filename = filename then change file else file)
    ?_ ?_ ?_ ?_ older requests ?_⟩
  · intro later member
    rw [files] at member
    obtain ⟨earlier, present, rfl⟩ := List.mem_map.mp member
    exact ⟨earlier, present, rfl⟩
  · intro other
    split
    · exact keeps.filename other
    · rfl
  · intro other
    split
    · exact keeps.document other
    · rfl
  · intro other
    split
    · exact keeps.owner other
    · rfl
  · intro other present
    split
    · next named =>
      rw [eq_of_filename coherent.names_nodup present
        (List.mem_of_getElem? entry.held) (named.trans entry.named.symm)]
      exact access
    · exact Or.inl ⟨rfl, rfl⟩

/-- A step that may remove entries, and changes nothing else about them. -/
theorem accessStep_of_subset
    {before after : NameServer}
    (files : ∀ later ∈ after.files, later ∈ before.files)
    (older : before.nextDocument ≤ after.nextDocument)
    (requests : RequestsKept before.accessRequests after.accessRequests) :
    ∃ change, AccessStep username command change none before after :=
  ⟨id, accessStep_of_change id (fun later member => ⟨later, files later member,
    rfl⟩) (fun _ => rfl) (fun _ => rfl) (fun _ => rfl) older requests
    fun _ _ => Or.inl ⟨rfl, rfl⟩⟩

/-- A step that makes an entry for a name no request is pending for. -/
theorem accessStep_of_register
    {before after : NameServer}
    (file : FileMetadata)
    (files :
      after.files = before.files ++
        [{ file with document := before.nextDocument }])
    (ownerShort : file.owner.length < maxUsernameLength)
    (notRequested : pendingElsewhere file.filename none before = false)
    (next : after.nextDocument = before.nextDocument + 1)
    (requests : after.accessRequests = before.accessRequests) :
    AccessStep username command id
      (some { file with document := before.nextDocument }) before after where
  entries later member := by
    rw [files, List.mem_append, List.mem_singleton] at member
    rcases member with present | rfl
    · exact Or.inl ⟨later, present, rfl⟩
    · exact Or.inr rfl
  sameDocument _ := rfl
  sameOwner _ := rfl
  newEntry entry isNew := by
    obtain rfl := Option.some.inj isNew
    exact ⟨rfl, ownerShort, by omega, notRequested⟩
  older := by omega
  names _ _ := Or.inl rfl
  requests later member :=
    Or.inl ⟨later, requests ▸ member, rfl, rfl, rfl, id⟩
  access _ _ := Or.inl ⟨rfl, rfl⟩

/-! ### What operations leave alone -/

/-- The requests and the document counter stay. -/
def SameRest (before after : NameServer) : Prop :=
  after.accessRequests = before.accessRequests ∧
    after.nextDocument = before.nextDocument

theorem SameRest.trans
    {first second third : NameServer}
    (earlier : SameRest first second)
    (later : SameRest second third) :
    SameRest first third :=
  ⟨later.1.trans earlier.1, later.2.trans earlier.2⟩

theorem OnlyCacheChanged.sameRest
    {before after : NameServer}
    (only : OnlyCacheChanged before after) :
    SameRest before after := by
  unfold OnlyCacheChanged at only
  rw [only]
  exact ⟨rfl, rfl⟩

theorem sameRest_select (ns : NameServer) :
    SameRest ns (nsSelectStorageServerBalanced ns).2 := by
  unfold nsSelectStorageServerBalanced
  simp only
  split <;> exact ⟨rfl, rfl⟩

theorem files_select (ns : NameServer) :
    (nsSelectStorageServerBalanced ns).2.files = ns.files := by
  unfold nsSelectStorageServerBalanced
  simp only
  split <;> rfl

theorem sameRest_remove
    (filename : CString)
    (ns : NameServer) :
    SameRest ns (removeFileMetadataLocked filename ns).2 := by
  unfold removeFileMetadataLocked
  split
  · exact ⟨rfl, rfl⟩
  · simp only
    split <;> exact ⟨rfl, rfl⟩

theorem sameRest_applyMove
    (now : Int)
    (username : CString)
    (plan : List MovePlanEntry)
    (ns : NameServer) :
    SameRest ns (applyMove now username plan ns) := by
  obtain ⟨_, _, _, _, moved⟩ := applyMove_frame plan ns
  rw [moved]
  exact ⟨rfl, rfl⟩

theorem requestsKept_cancelRequests
    (path : CString)
    (requests : List AccessRequest) :
    RequestsKept requests (cancelRequests path requests) := by
  intro later member
  obtain ⟨earlier, present, rfl⟩ := List.mem_map.mp member
  refine ⟨earlier, present, ?_⟩
  split
  · exact ⟨rfl, rfl, rfl, fun isPending => by cases isPending⟩
  · exact ⟨rfl, rfl, rfl, id⟩

theorem RequestsKept.trans
    {first second third : List AccessRequest}
    (earlier : RequestsKept first second)
    (later : RequestsKept second third) :
    RequestsKept first third := by
  intro req member
  obtain ⟨middle, middleHeld, name, user, document, isPending⟩ :=
    later req member
  obtain ⟨start, startHeld, startName, startUser, startDocument,
    wasPending⟩ := earlier middle middleHeld
  exact ⟨start, startHeld, name.trans startName, user.trans startUser,
    document.trans startDocument, fun held => wasPending (isPending held)⟩

theorem requestsKept_applyDelete
    (plan : List DeletePlanEntry)
    (ns : NameServer) :
    RequestsKept ns.accessRequests
        (plan.foldl applyDeleteEntry ns).accessRequests ∧
      (plan.foldl applyDeleteEntry ns).nextDocument = ns.nextDocument := by
  induction plan generalizing ns with
  | nil =>
      exact ⟨.refl _, rfl⟩
  | cons entry rest inductionHypothesis =>
      have removed := sameRest_remove entry.path ns
      have step :
          RequestsKept ns.accessRequests
              (applyDeleteEntry ns entry).accessRequests ∧
            (applyDeleteEntry ns entry).nextDocument = ns.nextDocument := by
        unfold applyDeleteEntry
        generalize removeFileMetadataLocked entry.path ns = pair at removed
        obtain ⟨found, left⟩ := pair
        cases found with
        | false =>
            exact ⟨removed.1 ▸ .refl _, removed.2⟩
        | true =>
            have cancelled :=
              requestsKept_cancelRequests entry.path left.accessRequests
            rw [removed.1] at cancelled
            cases entry.ss with
            | none => exact ⟨removed.1 ▸ cancelled, removed.2⟩
            | some address => exact ⟨removed.1 ▸ cancelled, removed.2⟩
      obtain ⟨kept, sameNext⟩ :=
        inductionHypothesis (applyDeleteEntry ns entry)
      exact ⟨step.1.trans kept, sameNext.trans step.2⟩

theorem requestsKept_modify
    {requests : List AccessRequest}
    {position : Nat}
    {change : AccessRequest → AccessRequest}
    (sameSubject :
      ∀ req,
        (change req).filename = req.filename ∧
          (change req).toUser = req.toUser ∧
            (change req).document = req.document)
    (notRevived :
      ∀ req, requests[position]? = some req →
        (change req).isPending = true → req.isPending = true) :
    RequestsKept requests (requests.modify position change) := by
  intro later member
  obtain ⟨place, held⟩ := List.getElem?_of_mem member
  rw [List.getElem?_modify, Option.map_eq_map, Option.map_eq_some_iff] at held
  obtain ⟨earlier, earlierHeld, rfl⟩ := held
  refine ⟨earlier, List.mem_of_getElem? earlierHeld, ?_⟩
  by_cases here : position = place
  · obtain ⟨name, user, document⟩ := sameSubject earlier
    simp only [here, ↓reduceIte]
    exact ⟨name, user, document, notRevived earlier (here ▸ earlierHeld)⟩
  · rw [if_neg here]
    exact ⟨rfl, rfl, rfl, id⟩

/-- A step that changes neither entries nor requests. -/
theorem accessStep_of_same
    {before after : NameServer}
    (files : after.files = before.files)
    (rest : SameRest before after) :
    ∃ change, AccessStep username command change none before after :=
  accessStep_of_subset (fun _ member => files ▸ member) rest.2.ge
    (rest.1 ▸ .refl _)

theorem files_registered
    (now : Int)
    (username filename : CString)
    (target : StorageServerInfo)
    (known : Looked start looked) :
    (registered now username filename target looked).ns.files =
      start.ns.files ++
        [{ newMetadata now username filename target with
            document := start.ns.nextDocument }] := by
  have files := (files_select looked.ns).trans known.onlyCache.files
  have next :=
    (sameRest_select looked.ns).2.trans known.onlyCache.sameRest.2
  unfold registered NsState.onRegistry
  simp only
  rw [files_registerFile, files, next]

/-- A refused `CREATE` takes its entry from the end of the table again. -/
theorem files_createRefused
    (now : Int)
    (username : CString)
    {filename : CString}
    (target : StorageServerInfo)
    (registry : Registry start.ns)
    (known : Looked start looked)
    (valid : validateFilename filename = true)
    (fresh : plainScan start.ns.files filename = none) :
    (removeFileMetadataLocked filename
        (registered now username filename target looked).ns).2.files =
      start.ns.files := by
  have entered := registry.registered now username target known valid fresh
  have files := files_registered now username filename target known
  have sameName :
      (newMetadata now username filename target).filename = filename :=
    safeStrcpy_of_short (length_of_validateFilename valid)
  have held :
      (registered now username filename target looked).ns.files[
          start.ns.files.length]? =
        some { newMetadata now username filename target with
          document := start.ns.nextDocument } := by
    rw [files, List.getElem?_concat_length]
  have found :=
    (plainScan_eq_some_iff entered.coherent.names_nodup).mpr
      ⟨_, held, sameName⟩
  rw [entered.coherent.removeFileMetadataLocked_eq, found, files,
    List.getLast?_concat]
  change filledHole _ _ _ = _
  rw [filledHole, files, List.set_append_right _ _ le_rfl, Nat.sub_self,
    List.set_cons_zero, List.dropLast_concat]

theorem rest_registerFile
    (filename : CString)
    (file : FileMetadata)
    (ns : NameServer) :
    (registerFile filename file ns).accessRequests = ns.accessRequests ∧
      (registerFile filename file ns).nextDocument = ns.nextDocument + 1 := by
  unfold registerFile
  obtain ⟨requests, next⟩ :=
    (onlyCacheChanged_fileCacheStore filename ns.files.length
      { fileIndexInsert filename ns.files.length ns with
        files := ns.files ++ [{ file with document := ns.nextDocument }]
        nextDocument := ns.nextDocument + 1 }).sameRest
  exact ⟨requests, next⟩

theorem rest_registered
    (now : Int)
    (username filename : CString)
    (target : StorageServerInfo)
    (known : Looked start looked) :
    (registered now username filename target looked).ns.accessRequests =
        start.ns.accessRequests ∧
      (registered now username filename target looked).ns.nextDocument =
        start.ns.nextDocument + 1 := by
  obtain ⟨requests, next⟩ := sameRest_select looked.ns
  obtain ⟨startRequests, startNext⟩ := known.onlyCache.sameRest
  obtain ⟨sameRequests, grown⟩ :=
    rest_registerFile filename (newMetadata now username filename target)
      (nsSelectStorageServerBalanced looked.ns).2
  exact ⟨sameRequests.trans (requests.trans startRequests),
    grown.trans (by rw [next, startNext])⟩

/-- The name of a new entry is not requested for another document. -/
theorem notRequested_of_fresh
    {ns : NameServer}
    {filename : CString}
    (fresh : plainScan ns.files filename = none)
    (notReused :
      ((plainScan ns.files filename).isNone &&
        pendingElsewhere filename none ns) = false) :
    pendingElsewhere filename none ns = false := by
  simpa [fresh] using notReused

/-- The names `MOVE` gives are not requested for other documents. -/
theorem notRequested_of_moved
    {ns : NameServer}
    {srcPath destFolder destination baseName finalRoot : CString}
    {source : FileMetadata}
    {plan : List MovePlanEntry}
    (normalized : nsNormalizeDestination destFolder = some destination)
    (planned :
      PlannedMoves ns username srcPath destination source baseName finalRoot
        plan)
    (notReused : movesOntoRequested srcPath destFolder ns = false)
    {file : FileMetadata}
    (present : file ∈ ns.files)
    (taken :
      takenAlong srcPath source.isDirectory file.filename = true)
    {newPath : CString}
    (moved : movedPath srcPath finalRoot file.filename = some newPath) :
    pendingElsewhere newPath (some file.document) ns = false := by
  obtain ⟨parent, isSplit⟩ := planned.baseName_eq
  simp only [movesOntoRequested, normalized, isSplit, planned.finalRoot_eq,
    List.any_eq_false, Bool.and_eq_true, decide_eq_true_eq, not_and,
    Bool.not_eq_true] at notReused
  have fromSource := notReused source planned.present planned.named
  have fromFile := fromSource file present taken
  simpa [moved] using fromFile

theorem foldl_renamedEntry_frame
    (now : Int)
    (username : CString)
    (plan : List MovePlanEntry)
    (file : FileMetadata) :
    (plan.foldl (renamedEntry now username) file).document =
        file.document ∧
      (plan.foldl (renamedEntry now username) file).owner = file.owner ∧
        SameAcl file (plan.foldl (renamedEntry now username) file) := by
  induction plan generalizing file with
  | nil =>
      exact ⟨rfl, rfl, rfl, rfl⟩
  | cons entry rest inductionHypothesis =>
      have later := inductionHypothesis (renamedEntry now username file entry)
      have step :
          (renamedEntry now username file entry).document = file.document ∧
            (renamedEntry now username file entry).owner = file.owner ∧
              SameAcl file (renamedEntry now username file entry) := by
        unfold renamedEntry
        split <;> exact ⟨rfl, rfl, rfl, rfl⟩
      exact ⟨later.1.trans step.1, later.2.1.trans step.2.1,
        later.2.2.1.trans step.2.2.1, later.2.2.2.trans step.2.2.2⟩

/-- `MOVE` renames entries and keeps everything requests look at. -/
theorem accessStep_of_moved
    (registry : Registry start.ns)
    (known : Looked start looked)
    {srcPath destFolder destination baseName finalRoot : CString}
    {source : FileMetadata}
    {plan : List MovePlanEntry}
    (normalized : nsNormalizeDestination destFolder = some destination)
    (planned :
      PlannedMoves start.ns username srcPath destination source baseName
        finalRoot plan)
    (notReused : movesOntoRequested srcPath destFolder start.ns = false) :
    ∃ change,
      AccessStep username command change none start.ns
        (applyMove now username plan looked.ns) := by
  have apart := planned.renamesApart registry.coherent.names_nodup
  have apartLater := apart
  rw [← known.onlyCache.files] at apartLater
  obtain ⟨_, files⟩ :=
    known.coherent.applyMove now username apartLater
  rw [known.onlyCache.files] at files
  obtain ⟨requests, next⟩ :=
    known.onlyCache.sameRest.trans
      (sameRest_applyMove now username plan looked.ns)
  have frame := foldl_renamedEntry_frame now username plan
  refine ⟨fun file => plan.foldl (renamedEntry now username) file, ?_⟩
  exact
    { entries := fun later member => by
        rw [files] at member
        obtain ⟨earlier, present, same⟩ := List.mem_map.mp member
        exact Or.inl ⟨earlier, present, same.symm⟩
      sameDocument := fun file => (frame file).1
      sameOwner := fun file => (frame file).2.1
      newEntry := fun _ isNew => by cases isNew
      older := next.ge
      names := fun file present => by
        simp only [foldl_renamedEntry apart fun _ held =>
          planned.oldPath_mem held]
        split
        · next entry found =>
          have held := List.mem_of_find?_eq_some found
          have sameName : entry.oldPath = file.filename := by
            simpa using List.find?_some found
          obtain ⟨other, otherPresent, taken, plannedEntry⟩ :=
            planned.exists_file held
          obtain rfl := eq_of_filename registry.coherent.names_nodup
            otherPresent present (plannedEntry.oldPath.symm.trans sameName)
          have isNew :
              (renamedMetadata now username entry.newPath other).filename =
                entry.newPath :=
            safeStrcpy_of_short (planned.paths held).1
          rw [isNew]
          exact Or.inr (notRequested_of_moved normalized planned notReused
            present taken plannedEntry.newPath)
        · exact Or.inl rfl
      requests := fun later member =>
        Or.inl ⟨later, requests ▸ member, rfl, rfl, rfl, id⟩
      access := fun file _ => Or.inl (frame file).2.2 }

/-- A step with which the owner of an entry changes its lists. -/
theorem accessStep_of_owner
    (registry : Registry start.ns)
    (sound : RequestsSound start.ns)
    (known : Looked start looked)
    {filename : CString}
    {index : Nat}
    {file : FileMetadata}
    (entry : EntryAt start.ns filename index file)
    (owned : strncmpEq file.owner username maxUsernameLength = true)
    {after : NameServer}
    {change : FileMetadata → FileMetadata}
    (files : after.files = looked.ns.files.modify index change)
    (keeps : KeepsIdentity change)
    (rest : SameRest looked.ns after)
    (noApproval :
      ∀ type idField rest,
        command ≠ .approveAccess (type :: idField :: rest)) :
    ∃ change, AccessStep username command change none start.ns after := by
  have wholeRest := known.onlyCache.sameRest.trans rest
  rw [known.onlyCache.files] at files
  refine accessStep_of_modify registry.coherent entry files keeps
    wholeRest.2.ge (wholeRest.1 ▸ .refl _) (Or.inr ⟨?_, ?_⟩)
  · have short := sound.owner_short file (List.mem_of_getElem? entry.held)
    exact (strncmpEq_iff short).mp owned
  · intro type idField rest approves
    exact absurd approves (noApproval type idField rest)

/-- What `APPROVEACCESS` changes is its user's and was requested. -/
theorem mayChangeAcl_of_request
    {ns : NameServer}
    (sound : RequestsSound ns)
    {position index : Nat}
    {req : AccessRequest}
    {file : FileMetadata}
    {type idField : CString}
    {rest : List CString}
    (entry : EntryAt ns req.filename index file)
    (request : ns.accessRequests[position]? = some req)
    (numbered : req.id = atoi idField)
    (isPending : req.isPending = true)
    (addressed : req.toUser = username) :
    MayChangeAcl username (.approveAccess (type :: idField :: rest)) ns
      file := by
  have reqHeld := List.mem_of_getElem? request
  have present := List.mem_of_getElem? entry.held
  have sameDocument :=
    sound.named req reqHeld isPending file present entry.named
  have owner := sound.addressed req reqHeld isPending file present
    sameDocument
  refine ⟨owner.trans addressed, fun _ otherField _ approves => ?_⟩
  cases approves
  exact ⟨req, reqHeld, numbered, isPending, sameDocument.symm⟩

/-- Every effect of a command is such a step. -/
theorem accessStep_of_effect
    (registry : Registry start.ns)
    (sound : RequestsSound start.ns)
    (effect : CommandEffect backend now username start command final)
    (notReused : reusesRequestedName command start.ns = false) :
    ∃ change new,
      AccessStep username command change new start.ns final.ns := by
  have unchanging :
      ∀ {after : NameServer},
        (∃ change, AccessStep username command change none start.ns after) →
          ∃ change new, AccessStep username command change new start.ns
            after :=
    fun ⟨change, step⟩ => ⟨change, none, step⟩
  have namesShort :
      (safeStrcpy username maxUsernameLength).length < maxUsernameLength :=
    length_safeStrcpy_lt _ (by decide)
  cases effect with
  | looked known =>
      exact unchanging (accessStep_of_same known.onlyCache.files
        known.onlyCache.sameRest)
  | unplaced known =>
      exact unchanging (accessStep_of_same
        ((files_select _).trans known.onlyCache.files)
        (known.onlyCache.sameRest.trans (sameRest_select _)))
  | @createRefused _ filename _ target _ looked answered known valid room
      fresh selected asked =>
      have same := (onlyAsks_createOnStorage _ _).ns_eq asked
      have files :=
        files_createRefused now username target registry known valid fresh
      obtain ⟨requests, next⟩ :=
        rest_registered now username filename target known
      obtain ⟨sameRequests, sameNext⟩ :=
        sameRest_remove filename answered.ns
      refine unchanging (accessStep_of_subset ?_ ?_ ?_)
      · intro later member
        rw [NsState.onRegistry, same, files] at member
        exact member
      · rw [NsState.onRegistry, sameNext, same, next]
        omega
      · rw [NsState.onRegistry, sameRequests, same, requests]
        exact .refl _
  | @created _ filename _ target looked answered known valid room fresh
      selected asked =>
      have same := (onlyAsks_createOnStorage _ _).ns_eq asked
      have files := files_registered now username filename target known
      obtain ⟨requests, next⟩ :=
        rest_registered now username filename target known
      have short := length_of_validateFilename valid
      refine ⟨id, _, accessStep_of_register
        (newMetadata now username filename target) ?_ namesShort ?_ ?_ ?_⟩
      · exact (congrArg NameServer.files same).trans files
      · have named :
            (newMetadata now username filename target).filename =
              filename :=
          safeStrcpy_of_short short
        rw [named]
        exact notRequested_of_fresh fresh notReused
      · exact (congrArg NameServer.nextDocument same).trans next
      · exact (congrArg NameServer.accessRequests same).trans requests
  | @folder _ path _ looked known valid room fresh =>
      have short := length_lt_of_nsValidateLogicalPath valid
      obtain ⟨sameRequests, sameNext⟩ := known.onlyCache.sameRest
      obtain ⟨requests, next⟩ :=
        rest_registerFile path (newFolder now username path) looked.ns
      refine ⟨id, _, accessStep_of_register
        (newFolder now username path) ?_ namesShort ?_ ?_ ?_⟩
      · rw [NsState.onRegistry, files_registerFile, known.onlyCache.files,
          sameNext]
      · have named : (newFolder now username path).filename = path :=
          safeStrcpy_of_short short
        rw [named]
        exact notRequested_of_fresh fresh notReused
      · rw [NsState.onRegistry, next, sameNext]
      · rw [NsState.onRegistry, requests, sameRequests]
  | moveRefused known normalized planned renames =>
      have same :=
        ns_of_staysWithin (sameRegistry_renameOnStorage [] _)
          (congrArg finalState renames)
      rw [finalState_error] at same
      rw [same]
      exact unchanging (accessStep_of_same known.onlyCache.files
        known.onlyCache.sameRest)
  | moved known normalized planned renames =>
      have same :=
        ns_of_staysWithin (sameRegistry_renameOnStorage [] _)
          (congrArg finalState renames)
      rw [finalState_ok] at same
      rw [NsState.onRegistry, same]
      exact unchanging
        (accessStep_of_moved registry known normalized planned notReused)
  | deleteRefused known planned deletes =>
      have same :=
        ns_of_staysWithin (sameRegistry_deleteOnStorage _)
          (congrArg finalState deletes)
      rw [finalState_error] at same
      rw [same]
      exact unchanging (accessStep_of_same known.onlyCache.files
        known.onlyCache.sameRest)
  | @deleted _ _ _ _ plan looked emptied known planned deletes =>
      have same :=
        ns_of_staysWithin (sameRegistry_deleteOnStorage _)
          (congrArg finalState deletes)
      rw [finalState_ok] at same
      have members := ((registry.looked known).applyDelete plan).2
      obtain ⟨requests, next⟩ :=
        requestsKept_applyDelete (removalOrder plan) looked.ns
      refine unchanging (accessStep_of_subset ?_ ?_ ?_)
      · intro later member
        rw [NsState.onRegistry, same, members, known.onlyCache.files]
          at member
        exact member.1
      · rw [NsState.onRegistry, same, applyDelete, next,
          known.onlyCache.sameRest.2]
      · rw [NsState.onRegistry, same, applyDelete,
          ← known.onlyCache.sameRest.1]
        exact requests
  | copyAnswered known destination home asked =>
      have same := (OnlyAsks.sendAndWait _ _).ns_eq asked
      exact unchanging (accessStep_of_same
        (by rw [same]; exact known.onlyCache.files)
        (by rw [same]; exact known.onlyCache.sameRest))
  | copied known source destination home asked =>
      have same := (OnlyAsks.sendAndWait _ _).ns_eq asked
      refine unchanging (accessStep_of_modify registry.coherent source ?_
        (keepsIdentity_accessedMetadata now username) ?_ ?_
        (Or.inl ⟨rfl, rfl⟩))
      · rw [NsState.onRegistry, same, changeFile, known.onlyCache.files]
      · rw [NsState.onRegistry, same]
        exact known.onlyCache.sameRest.2.ge
      · rw [NsState.onRegistry, same]
        exact known.onlyCache.sameRest.1 ▸ .refl _
  | @located _ operation filename index _ looked known entry =>
      have only := onlyCacheChanged_fileCacheStore filename index
        (changeFile index (locatedMetadata now username operation) looked.ns)
      have rest := known.onlyCache.sameRest.trans only.sameRest
      refine unchanging (accessStep_of_modify registry.coherent entry ?_
        (keepsIdentity_locatedMetadata now username operation) rest.2.ge
        (rest.1 ▸ .refl _) (Or.inl ?_))
      · rw [NsState.onRegistry, only.files, changeFile,
          known.onlyCache.files]
      · unfold locatedMetadata
        split <;> exact ⟨rfl, rfl⟩
  | @requested _ filename perm _ grantRead grantWrite index file looked known
      valid parsed entry =>
      obtain ⟨sameRequests, sameNext⟩ := known.onlyCache.sameRest
      have present := List.mem_of_getElem? entry.held
      have ownerShort := sound.owner_short file present
      refine ⟨id, none,
        { entries := fun later member =>
            Or.inl ⟨later, known.onlyCache.files ▸ member, rfl⟩
          sameDocument := fun _ => rfl
          sameOwner := fun _ => rfl
          newEntry := fun _ isNew => by cases isNew
          older := sameNext.ge
          names := fun _ _ => Or.inl rfl
          requests := fun later member => ?_
          access := fun _ _ => Or.inl ⟨rfl, rfl⟩ }⟩
      rw [NsState.onRegistry] at member
      simp only [List.mem_append, List.mem_singleton] at member
      rcases member with held | rfl
      · exact Or.inl ⟨later, sameRequests ▸ held, rfl, rfl, rfl, id⟩
      · refine Or.inr ⟨rfl, fun _ => rfl, file, present, ?_, ?_, rfl⟩
        · exact (safeStrcpy_of_short (length_of_validateFilename valid)).trans
            entry.named.symm
        · exact safeStrcpy_of_short ownerShort
  | @approveRefused _ idField _ position index req file _ looked answered
      known request numbered isPending addressed entry asked =>
      have same := (onlyAsks_approveOnStorage _ _).ns_eq asked
      obtain ⟨sameRequests, sameNext⟩ := known.onlyCache.sameRest
      have grant :=
        (keepsIdentity_fileAddAccess req.fromUser req.grantRead
          req.grantWrite).comp (keepsIdentity_fileRemoveAccess req.fromUser)
      rw [ungranted, NsState.onRegistry, same]
      refine unchanging (accessStep_of_modify registry.coherent entry ?_ grant
        sameNext.ge ?_
        (Or.inr (mayChangeAcl_of_request sound entry request numbered
          isPending addressed)))
      · rw [← known.onlyCache.files]
        exact List.modify_modify_eq _ _ _ _
      · rw [← sameRequests] at request ⊢
        refine Eq.mpr (congrArg (RequestsKept looked.ns.accessRequests)
          (List.modify_modify_eq _ _ _ _)) ?_
        refine requestsKept_modify (fun _ => ⟨rfl, rfl, rfl⟩) ?_
        intro other held _
        rw [request] at held
        exact Option.some.inj held ▸ isPending
  | @approved _ idField _ position index req file looked answered known
      request numbered isPending addressed entry asked =>
      have same := (onlyAsks_approveOnStorage _ _).ns_eq asked
      obtain ⟨sameRequests, sameNext⟩ := known.onlyCache.sameRest
      have grant :=
        keepsIdentity_fileAddAccess req.fromUser req.grantRead req.grantWrite
      rw [same, granted, NsState.onRegistry]
      refine unchanging (accessStep_of_modify registry.coherent entry ?_ grant
        sameNext.ge ?_
        (Or.inr (mayChangeAcl_of_request sound entry request numbered
          isPending addressed)))
      · rw [← known.onlyCache.files]
        rfl
      · rw [← sameRequests]
        exact requestsKept_modify (fun _ => ⟨rfl, rfl, rfl⟩)
          fun _ _ isPending => by cases isPending
  | rejected known =>
      obtain ⟨sameRequests, sameNext⟩ := known.onlyCache.sameRest
      refine unchanging (accessStep_of_subset
        (fun later member => known.onlyCache.files ▸ member) sameNext.ge ?_)
      rw [NsState.onRegistry, changeRequest, sameRequests]
      exact requestsKept_modify (fun _ => ⟨rfl, rfl, rfl⟩)
        fun _ _ isPending => by cases isPending
  | notAdded known valid parsed entry owned other full =>
      exact unchanging (accessStep_of_owner registry sound known entry owned
        rfl (keepsIdentity_fileAddAccess _ _ _) ⟨rfl, rfl⟩
        fun _ _ _ approves => by cases approves)
  | addRefused known valid parsed entry owned other asked =>
      have same := (onlyAsks_accessOnStorage _ _).ns_eq asked
      rw [NsState.onRegistry, same]
      exact unchanging (accessStep_of_owner registry sound known entry owned
        (List.modify_modify_eq _ _ _ _)
        ((keepsIdentity_fileAddAccess _ _ _).comp
          (keepsIdentity_fileRemoveAccess _)) ⟨rfl, rfl⟩
        fun _ _ _ approves => by cases approves)
  | added known valid parsed entry owned other room asked =>
      have same := (onlyAsks_accessOnStorage _ _).ns_eq asked
      rw [same]
      exact unchanging (accessStep_of_owner registry sound known entry owned
        rfl (keepsIdentity_fileAddAccess _ _ _) ⟨rfl, rfl⟩
        fun _ _ _ approves => by cases approves)
  | removeRefused known valid entry owned listed asked =>
      have same := (onlyAsks_accessOnStorage _ _).ns_eq asked
      rw [NsState.onRegistry, same]
      exact unchanging (accessStep_of_owner registry sound known entry owned
        (List.modify_modify_eq _ _ _ _)
        ((keepsIdentity_fileRemoveAccess _).comp
          (keepsIdentity_fileAddAccess _ _ _)) ⟨rfl, rfl⟩
        fun _ _ _ approves => by cases approves)
  | removed known valid entry owned listed asked =>
      have same := (onlyAsks_accessOnStorage _ _).ns_eq asked
      rw [same]
      exact unchanging (accessStep_of_owner registry sound known entry owned
        rfl (keepsIdentity_fileRemoveAccess _) ⟨rfl, rfl⟩
        fun _ _ _ approves => by cases approves)

end Steps

/-! ## Runs of users' commands -/

/-- What happens here: commands of users, and changes of the storage servers. -/
inductive UserStep where
  | command (now : Int) (username : CString) (command : NsCommand)
  | servers (storageServers : List StorageServerInfo)

/-- One step of the name server. -/
def userStep
    {World : Type}
    (backend : Backend World)
    (state : NsState World) : UserStep → NsState World
  | .command now username command =>
      nsStep backend state (.command now username command)
  | .servers storageServers => nsStep backend state (.servers storageServers)

/-- The step gives no requested name to another document. -/
def KeepsRequestedNames
    {World : Type}
    (state : NsState World) : UserStep → Prop
  | .command _ _ command => reusesRequestedName command state.ns = false
  | .servers _ => True

instance
    {World : Type}
    (state : NsState World)
    (action : UserStep) :
    Decidable (KeepsRequestedNames state action) := by
  cases action <;> unfold KeepsRequestedNames <;> infer_instance

/-- A user is on a list that was not. -/
def Widened (before after : FileMetadata) : Prop :=
  ∃ user,
    (user ∈ after.readAccessUsers ∧ user ∉ before.readAccessUsers) ∨
      (user ∈ after.writeAccessUsers ∧ user ∉ before.writeAccessUsers)

/--
Only the owner of an entry has widened its lists, and an approval only those
of the document its request is about.
-/
structure WidenedByOwner
    (username : CString)
    (command : NsCommand)
    (before after : NameServer) : Prop where
  owner :
    ∀ file ∈ before.files, ∀ later ∈ after.files,
      later.document = file.document → Widened file later →
        later.owner = username
  requested :
    ∀ file ∈ before.files, ∀ later ∈ after.files,
      later.document = file.document → Widened file later →
        ∀ type idField rest,
          command = .approveAccess (type :: idField :: rest) →
            ∃ req ∈ before.accessRequests,
              req.id = atoi idField ∧ req.isPending = true ∧
                req.document = file.document

section Runs

variable
  {World : Type}
  {backend : Backend World}
  {username : CString}
  {command : NsCommand}

theorem AccessStep.widenedByOwner
    {change : FileMetadata → FileMetadata}
    {new : Option FileMetadata}
    {before after : NameServer}
    (step : AccessStep username command change new before after)
    (sound : RequestsSound before) :
    WidenedByOwner username command before after := by
  have changed :
      ∀ file ∈ before.files, ∀ later ∈ after.files,
        later.document = file.document → later = change file := by
    intro file present later member same
    rcases step.entries later member with ⟨earlier, held, rfl⟩ | isNew
    · rw [step.sameDocument] at same
      rw [sound.documents_apart earlier held file present same]
    · have old := sound.documents_old file present
      rw [(step.newEntry later isNew).1] at same
      omega
  have mayChange :
      ∀ file ∈ before.files, ∀ later ∈ after.files,
        later.document = file.document → Widened file later →
          later = change file ∧ MayChangeAcl username command before file := by
    intro file present later member same widened
    have isChanged := changed file present later member same
    refine ⟨isChanged, ?_⟩
    rcases step.access file present with ⟨readers, writers⟩ | allowed
    · rw [isChanged] at widened
      obtain ⟨user, ⟨isIn, notIn⟩ | ⟨isIn, notIn⟩⟩ := widened
      · exact absurd (readers ▸ isIn) notIn
      · exact absurd (writers ▸ isIn) notIn
    · exact allowed
  constructor
  · intro file present later member same widened
    obtain ⟨isChanged, owner, _⟩ :=
      mayChange file present later member same widened
    rw [isChanged, step.sameOwner, owner]
  · intro file present later member same widened
    exact (mayChange file present later member same widened).2.2

/-- The invariant of a run. -/
structure RequestInvariant (ns : NameServer) : Prop where
  registry : Registry ns
  sound : RequestsSound ns

theorem RequestsSound.of_same
    {before after : NameServer}
    (sound : RequestsSound before)
    (files : after.files = before.files)
    (rest : SameRest before after) :
    RequestsSound after where
  owner_short := files ▸ sound.owner_short
  documents_apart := files ▸ sound.documents_apart
  documents_old := by
    rw [files, rest.2]
    exact sound.documents_old
  requests_old := by
    rw [rest.1, rest.2]
    exact sound.requests_old
  named := by
    rw [files, rest.1]
    exact sound.named
  addressed := by
    rw [files, rest.1]
    exact sound.addressed

theorem RequestInvariant.userStep
    {state : NsState World}
    (holds : RequestInvariant state.ns)
    (action : UserStep)
    (keeps : KeepsRequestedNames state action) :
    RequestInvariant (DistributedDocs.userStep backend state action).ns := by
  cases action with
  | command now username command =>
      have effect :=
        effect_of_command backend now username holds.registry.coherent
          command
      obtain ⟨change, new, step⟩ :=
        accessStep_of_effect holds.registry holds.sound effect keeps
      exact ⟨holds.registry.effect effect,
        step.sound holds.registry.coherent.names_nodup holds.sound⟩
  | servers storageServers =>
      exact ⟨holds.registry.of_same rfl rfl rfl,
        holds.sound.of_same rfl ⟨rfl, rfl⟩⟩

theorem requestInvariant_nsInit : RequestInvariant nsInit where
  registry := registry_nsInit
  sound :=
    { owner_short := fun _ member => by cases member
      documents_apart := fun _ member => by cases member
      documents_old := fun _ member => by cases member
      requests_old := fun _ member => by cases member
      named := fun _ member => by cases member
      addressed := fun _ member => by cases member }

end Runs

/--
In a run that gives no requested name to another document, every command that
widens access lists is one of the owner, and approvals are of what was
requested.
-/
theorem widenedByOwner_of_keepsRequestedNames
    {World : Type}
    (backend : Backend World)
    (world : World)
    (actions : List UserStep)
    (now : Int)
    (username : CString)
    (command : NsCommand)
    (keeps :
      GuardedRun (userStep backend) KeepsRequestedNames ⟨nsInit, world⟩
        (actions ++ [.command now username command])) :
    WidenedByOwner username command
      (runFrom (userStep backend) ⟨nsInit, world⟩ actions).ns
      (runFrom (userStep backend) ⟨nsInit, world⟩
        (actions ++ [.command now username command])).ns := by
  rw [GuardedRun.append_iff] at keeps
  have preserved :
      ∀ (state : NsState World) (action : UserStep),
        RequestInvariant state.ns → KeepsRequestedNames state action →
          RequestInvariant (userStep backend state action).ns :=
    fun _ action holds keeps => holds.userStep action keeps
  have reached :=
    GuardedRun.invariant preserved requestInvariant_nsInit keeps.1
  rw [runFrom_append]
  obtain ⟨change, new, step⟩ :=
    accessStep_of_effect reached.registry reached.sound
      (effect_of_command backend now username reached.registry.coherent
        command) keeps.2.1
  exact step.widenedByOwner reached.sound

/-! ## A run within the condition, and one outside -/

/-- A file of `ada`, for which `eve` has requested access. -/
def requestedPlan : List UserStep :=
  [.servers [someStorageServer],
    .command 1 (str "ada") (.create [str "CREATE", str "plan"]),
    .command 2 (str "eve")
      (.requestAccess [str "REQUESTACCESS", str "plan", str "R"])]

/-- The file is moved away, and `bob` makes one of the same name. -/
def reusedPlan : List UserStep :=
  requestedPlan ++
    [.command 3 (str "ada") (.createFolder [str "CREATEFOLDER", str "old"]),
      .command 4 (str "ada") (.move [str "MOVE", str "plan", str "old"]),
      .command 5 (str "bob") (.create [str "CREATE", str "plan"])]

/-- The approval of the first request. -/
def approveFirst : NsCommand :=
  .approveAccess [str "APPROVEACCESS", str "1"]

/-- Where a run of the accepting storage server ends. -/
def acceptedRun (actions : List UserStep) : NameServer :=
  (runFrom (userStep acceptingStorage) ⟨nsInit, ()⟩ actions).ns

/-- The owner approves what was requested: the run meets the condition. -/
theorem widenedByOwner_requestedPlan :
    WidenedByOwner (str "ada") approveFirst (acceptedRun requestedPlan)
        (acceptedRun
          (requestedPlan ++ [.command 6 (str "ada") approveFirst])) ∧
      ((acceptedRun
          (requestedPlan ++ [.command 6 (str "ada") approveFirst])).files.map
        FileMetadata.readAccessUsers) = [[str "eve"]] :=
  ⟨widenedByOwner_of_keepsRequestedNames acceptingStorage () requestedPlan 6
    (str "ada") approveFirst (by decide +kernel), by decide +kernel⟩

/-- Whether a step gives a user access to an entry of another owner. -/
def widensForeign (username user : CString) (before after : NameServer) :
    Bool :=
  before.files.any fun file =>
    after.files.any fun later =>
      (later.document = file.document && later.owner ≠ username) &&
        (later.readAccessUsers.contains user &&
          !file.readAccessUsers.contains user)

/-- After the name has been reused, `ada` widens the list of `bob`'s file. -/
theorem approval_widens_reusedPlan :
    ¬∀ (actions : List UserStep) (now : Int) (username : CString)
        (command : NsCommand),
      WidenedByOwner username command (acceptedRun actions)
        (acceptedRun (actions ++ [.command now username command])) := by
  intro always
  have widened :
      widensForeign (str "ada") (str "eve") (acceptedRun reusedPlan)
        (acceptedRun
          (reusedPlan ++ [.command 6 (str "ada") approveFirst])) = true := by
    decide +kernel
  simp only [widensForeign, List.any_eq_true, Bool.and_eq_true,
    decide_eq_true_eq, List.contains_iff_mem, Bool.not_eq_true',
    ← Bool.not_eq_true] at widened
  obtain ⟨file, present, later, member, ⟨same, foreign⟩, isIn, notIn⟩ :=
    widened
  exact foreign
    ((always reusedPlan 6 (str "ada") approveFirst).owner file present later
      member same ⟨str "eve", Or.inl ⟨isIn, notIn⟩⟩)

end DistributedDocs
