import DistributedDocs.StorageOperations
import DistributedDocs.StorageSessions
import DistributedDocs.UserLists

namespace DistributedDocs

/-!
# The users a storage server notes

A record names the user of its last access, and a session the user who has
opened it.  Both come from messages, and `ETIRW` takes the one from the other.
-/

/-- All users noted in records and sessions have valid names. -/
structure UsersKnown (ss : StorageServer) : Prop where
  lastAccess : ∀ rec ∈ ss.files, validateUsername rec.lastAccessUser = true
  sessions :
    ∀ session ∈ ss.sessions, validateUsername session.username = true

/-- If all users are known before, all are known after. -/
def KeepsUsersKnown (before after : StorageServer) : Prop :=
  UsersKnown before → UsersKnown after

/-- The user a command is about, if its message names one. -/
def SsCommand.user : SsCommand → Option CString
  | writeLock _ (_ :: username :: _) => some username
  | undo _ (_ :: username :: _) => some username
  | checkpoint _ (_ :: username :: _) => some username
  | revert _ (_ :: username :: _) => some username
  | _ => none

/-- The time at which an operation is handled. -/
def StorageOperation.now : StorageOperation → Int
  | event ⟨now, _⟩ => now
  | request now _ => now

/-- The user an operation is about, if its message names one. -/
def StorageOperation.user : StorageOperation → Option CString
  | event ⟨_, command⟩ => command.user
  | request _ asked => asked.user

namespace KeepsUsersKnown

theorem isEffect : IsEffect KeepsUsersKnown where
  refl _ := id
  trans earlier later := later ∘ earlier

/-- A change to anything but records and sessions. -/
theorem of_same
    {before after : StorageServer}
    (files : after.files = before.files)
    (sessions : after.sessions = before.sessions) :
    KeepsUsersKnown before after := by
  intro known
  exact ⟨files ▸ known.lastAccess, sessions ▸ known.sessions⟩

theorem onDisk
    {α : Type}
    (operation : Disk CString → α × Disk CString) :
    StaysWithin KeepsUsersKnown (DistributedDocs.onDisk operation) :=
  fun _ => of_same rfl rfl

theorem send (receiver : Peer) (fields : List CString) :
    StaysWithin KeepsUsersKnown (DistributedDocs.send receiver fields) :=
  fun _ => of_same rfl rfl

theorem unlink (path : CString) :
    StaysWithin KeepsUsersKnown (DistributedDocs.unlink path) :=
  fun _ => of_same rfl rfl

theorem refuse {α : Type} (code : Int) (text : String) :
    StaysWithin KeepsUsersKnown
      (DistributedDocs.refuse code text : Handler α) :=
  .throw isEffect _

theorem ensure
    (condition : Bool)
    {otherwise : Handler Unit}
    (within : StaysWithin KeepsUsersKnown otherwise) :
    StaysWithin KeepsUsersKnown (DistributedDocs.ensure condition otherwise) :=
  .ite (.pure isEffect _) within

theorem ssReadFileContent (path : CString) :
    StaysWithin KeepsUsersKnown (DistributedDocs.ssReadFileContent path) :=
  .bind isEffect (onDisk _) fun _ => .pure isEffect _

theorem ssWriteFileContent (path data : CString) :
    StaysWithin KeepsUsersKnown
      (DistributedDocs.ssWriteFileContent path data) :=
  .bind isEffect (onDisk _) fun _ => .pure isEffect _

theorem ssWriteMetadata (rec : FileRecord) :
    StaysWithin KeepsUsersKnown (DistributedDocs.ssWriteMetadata rec) :=
  .bind isEffect (onDisk _) fun _ => .pure isEffect _

theorem ssFileExists (path : CString) :
    StaysWithin KeepsUsersKnown (DistributedDocs.ssFileExists path) :=
  .bind isEffect (.get isEffect) fun _ => .pure isEffect _

theorem ssTouchFileMetadata
    {now : Int}
    {rec : FileRecord}
    {username : Option CString}
    {updateModified : Bool}
    (valid :
      validateUsername
        (rec.touched now username updateModified).lastAccessUser = true) :
    StaysWithin KeepsUsersKnown
      (DistributedDocs.ssTouchFileMetadata now rec username
        updateModified) := by
  refine .bind isEffect ?_ fun _ =>
    .bind isEffect (ssWriteMetadata _) fun _ => .pure isEffect _
  intro ss known
  refine ⟨?_, known.sessions⟩
  intro r listed
  rcases mem_storeRecord listed with ⟨present, _⟩ | rfl
  · exact known.lastAccess r present
  · exact valid

theorem ssSyncMetadataToNs (rec : FileRecord) :
    StaysWithin KeepsUsersKnown (DistributedDocs.ssSyncMetadataToNs rec) := by
  refine .bind isEffect ?_ fun _ =>
    .bind isEffect (ssReadFileContent _) fun _ => send _ _
  refine .bind isEffect (.get isEffect) fun ss => ?_
  split
  · exact .pure isEffect _
  · exact .pure isEffect _

/-- A change of the session table that brings in no other users. -/
theorem modifySessions
    {change : List WriteSession → List WriteSession}
    (fewer :
      ∀ sessions, ∀ session ∈ change sessions,
        ∃ earlier ∈ sessions, earlier.username = session.username) :
    StaysWithin KeepsUsersKnown (DistributedDocs.modifySessions change) := by
  intro ss known
  refine ⟨known.lastAccess, ?_⟩
  intro session listed
  obtain ⟨earlier, present, same⟩ := fewer ss.sessions session listed
  exact same ▸ known.sessions earlier present

theorem ssDetachSession (fd : Nat) :
    StaysWithin KeepsUsersKnown
      (DistributedDocs.modifySessions fun sessions =>
        DistributedDocs.ssDetachSession sessions fd) :=
  modifySessions fun _ session listed =>
    ⟨session, List.mem_of_mem_eraseP listed, rfl⟩

/-- Fetching a source writes the temporary file and nothing else. -/
theorem fetchSource
    (peer : PeerSession)
    (srcRec : Option FileRecord)
    (tempPath : CString) :
    StaysWithin KeepsUsersKnown
      (DistributedDocs.fetchSource peer srcRec tempPath) := by
  let scope : Scope :=
    { target := 0
      footprint := [tempPath]
      allowed := fun _ => False
      keepsSessions := True }
  have within :=
    @fetchSource_within scope tempPath List.mem_cons_self peer srcRec
  exact within.mono fun _ _ effect =>
    of_same (effect.files_eq_of_allows_nothing fun _ => id)
      (effect.sessions_eq trivial)

theorem writableIdleRecord (username filename : CString) :
    StaysWithin KeepsUsersKnown
      (DistributedDocs.writableIdleRecord username filename) := by
  unfold DistributedDocs.writableIdleRecord
  refine .bind isEffect (.get isEffect) fun ss => ?_
  split
  · refine .bind isEffect (ensure _ (refuse _ _)) fun _ => ?_
    refine .bind isEffect (.get isEffect) fun _ => ?_
    exact .bind isEffect (ensure _ (refuse _ _)) fun _ => .pure isEffect _
  · exact refuse _ _

section Named

variable
  {username : CString}
  (valid : validateUsername username = true)

include valid

/-- A copy of a valid name is the name. -/
theorem valid_copy :
    validateUsername (safeStrcpy username maxUsernameLength) = true := by
  rw [safeStrcpy_of_short (validateUsername_iff.mp valid).2.1]
  exact valid

theorem touch
    (now : Int)
    (rec : FileRecord)
    (updateModified : Bool) :
    StaysWithin KeepsUsersKnown
      (DistributedDocs.ssTouchFileMetadata now rec (some username)
        updateModified) :=
  ssTouchFileMetadata (valid_copy valid)

theorem lockSentence
    (fd : Nat)
    (indexField : CString)
    (sentenceIndex : Int)
    (rec : FileRecord) :
    StaysWithin KeepsUsersKnown
      (DistributedDocs.lockSentence fd username indexField sentenceIndex
        rec) := by
  unfold DistributedDocs.lockSentence
  refine .bind isEffect (ensure _ (refuse _ _)) fun _ => ?_
  refine .bind isEffect (.get isEffect) fun _ => ?_
  refine .bind isEffect (ensure _ (refuse _ _)) fun _ => ?_
  refine .bind isEffect (ssReadFileContent _) fun fileData => ?_
  split
  · split
    · refine .bind isEffect ?_ fun _ =>
        .bind isEffect (send _ _) fun _ => send _ _
      intro ss known
      refine ⟨known.lastAccess, ?_⟩
      intro session listed
      rcases List.mem_cons.mp listed with rfl | present
      · exact valid_copy valid
      · exact known.sessions session present
    · exact refuse _ _
  · exact refuse _ _

theorem commitSession
    (now : Int)
    (fd : Nat)
    {session : WriteSession}
    (opened : session.username = username)
    (rec : FileRecord) :
    StaysWithin KeepsUsersKnown
      (DistributedDocs.commitSession now fd session rec) := by
  subst opened
  unfold DistributedDocs.commitSession
  refine .bind isEffect (ssReadFileContent _) fun content => ?_
  split
  · refine .bind isEffect (ensure _ (refuse _ _)) fun _ => ?_
    refine .bind isEffect (ssWriteFileContent _ _) fun _ => ?_
    refine .bind isEffect (ensure _ (refuse _ _)) fun _ => ?_
    refine .bind isEffect (ssWriteFileContent _ _) fun _ => ?_
    refine .bind isEffect (ensure _ (refuse _ _)) fun _ => ?_
    refine .bind isEffect (touch valid _ _ _) fun _ => ?_
    refine .bind isEffect (modifySessions ?_) fun _ => ?_
    · intro sessions later listed
      obtain ⟨earlier, present, rfl⟩ := List.mem_map.mp listed
      exact ⟨earlier, present, by simp⟩
    · exact .bind isEffect (ssDetachSession fd) fun _ =>
        .bind isEffect (send _ _) fun _ => ssSyncMetadataToNs rec
  · exact refuse _ _

theorem undoRecord
    (now : Int)
    (fd : Nat)
    (rec : FileRecord) :
    StaysWithin KeepsUsersKnown
      (DistributedDocs.undoRecord now fd username rec) := by
  unfold DistributedDocs.undoRecord
  refine .bind isEffect (ssFileExists _) fun _ => ?_
  refine .bind isEffect (ensure _ (refuse _ _)) fun _ => ?_
  refine .bind isEffect (ssReadFileContent _) fun content => ?_
  split
  · refine .bind isEffect (ssWriteFileContent _ _) fun _ => ?_
    refine .bind isEffect (ensure _ (refuse _ _)) fun _ => ?_
    exact .bind isEffect (touch valid _ _ _) fun _ => send _ _
  · exact refuse _ _

theorem revertRecord
    (now : Int)
    (fd : Nat)
    (tag : CString)
    (rec : FileRecord) :
    StaysWithin KeepsUsersKnown
      (DistributedDocs.revertRecord now fd username tag rec) := by
  unfold DistributedDocs.revertRecord
  split
  · refine .bind isEffect (ssFileExists _) fun _ => ?_
    refine .bind isEffect (ensure _ (refuse _ _)) fun _ => ?_
    refine .bind isEffect (onDisk _) fun _ => ?_
    refine .bind isEffect (ensure _ (refuse _ _)) fun _ => ?_
    refine .bind isEffect (onDisk _) fun _ => ?_
    refine .bind isEffect
      (ensure _ (.bind isEffect (onDisk _) fun _ => refuse _ _)) fun _ => ?_
    exact .bind isEffect (touch valid _ _ _) fun _ => send _ _
  · exact refuse _ _

theorem checkpointRecord
    (now : Int)
    (fd : Nat)
    (storagePath tag : CString)
    (rec : FileRecord) :
    StaysWithin KeepsUsersKnown
      (DistributedDocs.checkpointRecord now fd storagePath username tag
        rec) := by
  unfold DistributedDocs.checkpointRecord
  refine .bind isEffect (ensure _ (refuse _ _)) fun _ => ?_
  split
  · refine .bind isEffect (onDisk _) fun _ => ?_
    refine .bind isEffect
      (ensure _ (.bind isEffect (unlink _) fun _ => refuse _ _)) fun _ => ?_
    refine .bind isEffect ?_ fun pruned =>
      .bind isEffect (touch valid _ _ _) fun _ => send _ _
    unfold pruneIfFull
    refine .ite ?_ (.pure isEffect _)
    split
    · exact .pure isEffect _
    · exact .bind isEffect (unlink _) fun _ => .pure isEffect _
  · exact refuse _ _

theorem copyInto
    (now : Int)
    (peer : PeerSession)
    (srcRec : Option FileRecord)
    (destRec : FileRecord) :
    StaysWithin KeepsUsersKnown
      (DistributedDocs.copyInto now peer username srcRec destRec) := by
  unfold DistributedDocs.copyInto
  refine .bind isEffect (unlink _) fun _ => ?_
  refine .bind isEffect (fetchSource _ _ _) fun failure => ?_
  split
  · exact .bind isEffect (unlink _) fun _ => .throw isEffect _
  · refine .bind isEffect (onDisk _) fun _ => ?_
    refine .bind isEffect
      (ensure _ (.bind isEffect (unlink _) fun _ => refuse _ _)) fun _ => ?_
    exact .bind isEffect (touch valid _ _ _) fun _ =>
      .bind isEffect (ssSyncMetadataToNs _) fun _ => send _ _

end Named

/-! ### The commands -/

theorem handleClientWriteLock
    (fd : Nat)
    (msg : List CString)
    (valid :
      ∀ user ∈ (SsCommand.writeLock fd msg).user,
        validateUsername user = true) :
    StaysWithin KeepsUsersKnown
      (DistributedDocs.handleClientWriteLock fd msg) := by
  rcases msg with
    _ | ⟨type, _ | ⟨username, _ | ⟨filename, _ | ⟨indexField, rest⟩⟩⟩⟩
  iterate 4 exact refuse _ _
  unfold DistributedDocs.handleClientWriteLock
  simp only
  split
  · refine .bind isEffect (ensure _ (refuse _ _)) fun _ => ?_
    refine .bind isEffect (ssDetachSession fd) fun _ => ?_
    refine .bind isEffect (.get isEffect) fun _ => ?_
    split
    · exact lockSentence (valid _ rfl) _ _ _ _
    · exact refuse _ _
  · exact refuse _ _

theorem handleClientWriteData (fd : Nat) (msg : List CString) :
    StaysWithin KeepsUsersKnown
      (DistributedDocs.handleClientWriteData fd msg) := by
  unfold DistributedDocs.handleClientWriteData
  split
  · split
    · refine .bind isEffect (ensure _ (refuse _ _)) fun _ => ?_
      refine .bind isEffect (.get isEffect) fun _ => ?_
      split
      · split
        · refine .bind isEffect (modifySessions ?_) fun _ => send _ _
          intro sessions later listed
          obtain ⟨earlier, present, rfl⟩ := List.mem_map.mp listed
          refine ⟨earlier, present, ?_⟩
          split <;> rfl
        · exact refuse _ _
      · exact refuse _ _
    · exact refuse _ _
  · exact refuse _ _

/-- A commit notes the user who has opened the session. -/
theorem handleClientEtirw (now : Int) (fd : Nat) :
    StaysWithin KeepsUsersKnown
      (DistributedDocs.handleClientEtirw now fd) := by
  intro ss known
  simp only [DistributedDocs.handleClientEtirw, bind_apply, get_apply]
  cases found : ssFindSession ss.sessions fd with
  | none =>
      exact known
  | some session =>
      simp only [bind_apply, get_apply]
      cases reached : recordAt ss.files session.file with
      | none =>
          exact known
      | some rec =>
          have listed := List.mem_of_find?_eq_some found
          exact commitSession (known.sessions session listed) now fd rfl rec
            ss known

theorem handleClientUndo
    (now : Int)
    (fd : Nat)
    (msg : List CString)
    (valid :
      ∀ user ∈ (SsCommand.undo fd msg).user,
        validateUsername user = true) :
    StaysWithin KeepsUsersKnown
      (DistributedDocs.handleClientUndo now fd msg) := by
  rcases msg with _ | ⟨type, _ | ⟨username, _ | ⟨filename, rest⟩⟩⟩
  iterate 3 exact refuse _ _
  exact .bind isEffect (writableIdleRecord _ _) fun rec =>
    undoRecord (valid _ rfl) _ _ rec

theorem handleClientRevert
    (now : Int)
    (fd : Nat)
    (msg : List CString)
    (valid :
      ∀ user ∈ (SsCommand.revert fd msg).user,
        validateUsername user = true) :
    StaysWithin KeepsUsersKnown
      (DistributedDocs.handleClientRevert now fd msg) := by
  rcases msg with
    _ | ⟨type, _ | ⟨username, _ | ⟨filename, _ | ⟨tag, rest⟩⟩⟩⟩
  iterate 4 exact refuse _ _
  exact .bind isEffect (ensure _ (refuse _ _)) fun _ =>
    .bind isEffect (writableIdleRecord _ _) fun rec =>
      revertRecord (valid _ rfl) _ _ _ rec

theorem handleClientCheckpoint
    (now : Int)
    (fd : Nat)
    (msg : List CString)
    (valid :
      ∀ user ∈ (SsCommand.checkpoint fd msg).user,
        validateUsername user = true) :
    StaysWithin KeepsUsersKnown
      (DistributedDocs.handleClientCheckpoint now fd msg) := by
  rcases msg with
    _ | ⟨type, _ | ⟨username, _ | ⟨filename, _ | ⟨tag, rest⟩⟩⟩⟩
  iterate 4 exact refuse _ _
  exact .bind isEffect (ensure _ (refuse _ _)) fun _ =>
    .bind isEffect (.get isEffect) fun _ =>
      .bind isEffect (writableIdleRecord _ _) fun rec =>
        checkpointRecord (valid _ rfl) _ _ _ _ rec

/-- A copy checks the name of the user itself. -/
theorem handleSsCopy
    (now : Int)
    (peer : PeerSession)
    (msg : List CString) :
    StaysWithin KeepsUsersKnown
      (DistributedDocs.handleSsCopy now peer msg) := by
  unfold DistributedDocs.handleSsCopy
  split
  · next type destFilename srcIp srcPortField srcFilename username rest =>
    cases valid : validateUsername username with
    | false =>
        intro ss known
        simp only [Bool.and_false, bind_apply, ensure_apply,
          Bool.false_eq_true, ↓reduceIte, refuse_apply, finalState_error]
        exact known
    | true =>
        refine .bind isEffect (ensure _ (refuse _ _)) fun _ => ?_
        refine .bind isEffect (ensure _ (refuse _ _)) fun _ => ?_
        refine .bind isEffect ?_ fun records => copyInto valid _ _ _ _
        intro ss known
        have shape :=
          idleCopyRecords_apply (srcIp = str "LOCAL") srcFilename
            destFilename ss
        cases admitted :
            admittedCopy ss (srcIp = str "LOCAL") srcFilename
              destFilename with
        | none =>
            rw [admitted] at shape
            obtain ⟨refusal, refused⟩ := shape
            rw [refused]
            exact known
        | some records =>
            rw [admitted] at shape
            simp only at shape
            rw [shape]
            exact known
  · exact refuse _ _

end KeepsUsersKnown

/-! ## Every operation -/

theorem createdRecord_eq
    {ss : StorageServer}
    {now : Int}
    {msg : List CString}
    {newRecord : FileRecord}
    (created : createdRecord ss now msg = some newRecord) :
    ∃ filename owner,
      validateFilename filename = true ∧ validateUsername owner = true ∧
        newRecord = newFileRecord ss now filename owner := by
  rcases msg with _ | ⟨type, _ | ⟨filename, _ | ⟨owner, rest⟩⟩⟩
  iterate 3 cases created
  simp only [createdRecord, Option.ite_none_right_eq_some,
    Bool.and_eq_true, Option.some.injEq] at created
  obtain ⟨⟨⟨validName, validOwner⟩, _⟩, same⟩ := created
  exact ⟨filename, owner, validName, validOwner, same.symm⟩

namespace UsersKnown

variable
  {ss : StorageServer}
  (known : UsersKnown ss)

include known

theorem of_handler
    {event : SsEvent}
    (within : StaysWithin KeepsUsersKnown event.handler) :
    UsersKnown (ssStep ss event) := by
  obtain ⟨sent, stepped⟩ := ssStep_eq ss event
  have after := within ss known
  rw [stepped]
  exact ⟨after.lastAccess, after.sessions⟩

/-- A record is stored, and the sessions stay. -/
theorem of_stored
    {after : StorageServer}
    {changed : FileRecord}
    (files : after.files = storeRecord changed ss.files)
    (sessions : after.sessions = ss.sessions)
    (valid : validateUsername changed.lastAccessUser = true) :
    UsersKnown after := by
  refine ⟨?_, sessions ▸ known.sessions⟩
  intro r listed
  rw [files] at listed
  rcases mem_storeRecord listed with ⟨present, _⟩ | rfl
  · exact known.lastAccess r present
  · exact valid

theorem ssStep
    {event : SsEvent}
    (valid :
      ∀ user ∈ event.command.user, validateUsername user = true) :
    UsersKnown (DistributedDocs.ssStep ss event) := by
  obtain ⟨now, command⟩ := event
  cases command with
  | writeLock fd msg =>
      exact known.of_handler (.handleClientWriteLock fd msg valid)
  | writeData fd msg =>
      exact known.of_handler (.handleClientWriteData fd msg)
  | etirw fd =>
      exact known.of_handler (.handleClientEtirw now fd)
  | disconnected fd =>
      exact known.of_handler (.ssDetachSession fd)
  | undo fd msg =>
      exact known.of_handler (.handleClientUndo now fd msg valid)
  | checkpoint fd msg =>
      exact known.of_handler (.handleClientCheckpoint now fd msg valid)
  | revert fd msg =>
      exact known.of_handler (.handleClientRevert now fd msg valid)
  | ssCopy peer msg =>
      exact known.of_handler (.handleSsCopy now peer msg)
  | createFile msg =>
      have effect := stepEffect ss ⟨now, .createFile msg⟩
      refine ⟨?_, effect.sessions_eq trivial ▸ known.sessions⟩
      intro rec listed
      rcases mem_files_ssStep listed with
        present | ⟨_, impossible⟩ | ⟨other, isCreate, created⟩
      · exact known.lastAccess rec present
      · exact False.elim impossible
      · obtain ⟨filename, owner, _, valid, rfl⟩ := createdRecord_eq created
        exact KeepsUsersKnown.valid_copy valid
  | deleteFile msg =>
      have effect := stepEffect ss ⟨now, .deleteFile msg⟩
      refine ⟨?_, effect.sessions_eq trivial ▸ known.sessions⟩
      intro rec listed
      rcases mem_files_ssStep listed with
        present | ⟨_, impossible⟩ | ⟨other, isCreate, _⟩
      · exact known.lastAccess rec present
      · exact False.elim impossible
      · cases isCreate
  | ssRename oldLogical newLogical =>
      have effect := stepEffect ss ⟨now, .ssRename oldLogical newLogical⟩
      have sessions :=
        effect.sessions_eq
          (keepsSessions_of_changesSessions _ rfl)
      refine ⟨?_, sessions ▸ known.sessions⟩
      intro r listed
      rcases mem_files_ssStep listed with
        present | ⟨_, allowed⟩ | ⟨other, isCreate, _⟩
      · exact known.lastAccess r present
      · simp only [eventScope, renameCommandScope] at allowed
        cases target : renamedRecord ss oldLogical newLogical with
        | none =>
            rw [target] at allowed
            exact False.elim allowed
        | some rec =>
            rw [target] at allowed
            obtain ⟨later, rfl⟩ := allowed
            simp only [renamedRecord, Option.ite_none_right_eq_some]
              at target
            exact known.lastAccess rec (ssFindFile_filename target.2).1
      · cases isCreate

theorem ssOperate
    (placed : RecordsPlaced ss)
    (undisturbed : ss.disk.outcomes = [])
    {operation : StorageOperation}
    (valid :
      ∀ user ∈ operation.user, validateUsername user = true) :
    UsersKnown (DistributedDocs.ssOperate ss operation) := by
  cases operation with
  | event event =>
      exact known.ssStep valid
  | request now request =>
      have short :
          ∀ user ∈ request.user, user.length < maxUsernameLength :=
        fun user asked => (validateUsername_iff.mp (valid user asked)).2.1
      cases storageOutcome placed undisturbed now request short with
      | same sent ends =>
          rw [ends]
          exact ⟨known.lastAccess, known.sessions⟩
      | touched asked present sent ends =>
          rw [ends]
          exact known.of_stored rfl rfl
            (KeepsUsersKnown.valid_copy (valid _ asked))
      | granted isGrant found added done sent ends =>
          have valid := known.lastAccess _ (ssFindFile_filename found).1
          rw [ends]
          exact known.of_stored rfl rfl valid
      | revoked asked present sent ends =>
          have valid := known.lastAccess _ present
          rw [ends]
          exact known.of_stored rfl rfl valid

end UsersKnown

end DistributedDocs
