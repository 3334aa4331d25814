import DistributedDocs.GuardedRun
import DistributedDocs.SentenceLocks
import DistributedDocs.StorageRecords
import DistributedDocs.StorageUndisturbed

namespace DistributedDocs

/-!
# The sessions of a storage server

Every open session stands on the sentence it locked, whatever commands arrive
in whatever order, as long as no command reaches the content of a document with
open sessions through the paths of another one.
-/

/-- The sessions open on a record. -/
def StorageServer.sessionsOf
    (ss : StorageServer)
    (address : Nat) : List WriteSession :=
  ss.sessions.filter fun s => s.file = address

/-- A record's content with the sessions open on it. -/
def StorageServer.viewOf
    (ss : StorageServer)
    (address : Nat)
    (bytes : RawBytes) : FileView where
  file := address
  content := cString bytes
  sessions := ss.sessionsOf address

/-- The record has its content, and its sessions stand on their sentences. -/
def RecordSound (ss : StorageServer) (rec : FileRecord) : Prop :=
  ∃ bytes,
    ss.disk.bytesAt rec.filepath = some bytes ∧
      SessionsInPlace (ss.viewOf rec.address bytes)

/-- The invariant of the session table. -/
structure SessionsSound (ss : StorageServer) : Prop extends
    RecordsPlaced ss where
  undisturbed : ss.disk.outcomes = []
  clients_nodup : (ss.sessions.map WriteSession.clientFd).Nodup
  in_place :
    ∀ s ∈ ss.sessions,
      ∃ rec ∈ ss.files, rec.address = s.file ∧ RecordSound ss rec

/--
No command changes the content file of a record with open sessions, unless it
acts on that record; a rename of one does not go onto its own sidecar files.
-/
structure SparesOpenFiles (ss : StorageServer) (event : SsEvent) : Prop where
  others :
    ∀ rec ∈ ss.files,
      ssFileHasActiveWriters ss.sessions rec.address = true →
        event.subject ss ≠ some rec →
          rec.filepath ∉ writtenPaths ss event
  renamed :
    ∀ moved ∈ movedFile ss event,
      ssFileHasActiveWriters ss.sessions moved.1.address = true →
        moved.2 ∉ [moved.1.metapath, moved.1.undopath]

instance (ss : StorageServer) (event : SsEvent) :
    Decidable (SparesOpenFiles ss event) :=
  decidable_of_iff
    ((∀ rec ∈ ss.files,
        ssFileHasActiveWriters ss.sessions rec.address = true →
          event.subject ss ≠ some rec →
            rec.filepath ∉ writtenPaths ss event) ∧
      ∀ moved ∈ movedFile ss event,
        ssFileHasActiveWriters ss.sessions moved.1.address = true →
          moved.2 ∉ [moved.1.metapath, moved.1.undopath])
    ⟨fun both => ⟨both.1, both.2⟩, fun spares =>
      ⟨spares.others, spares.renamed⟩⟩

theorem mem_sessionsOf
    {ss : StorageServer}
    {address : Nat}
    {s : WriteSession} :
    s ∈ ss.sessionsOf address ↔ s ∈ ss.sessions ∧ s.file = address := by
  simp [StorageServer.sessionsOf]

theorem active_of_mem
    {sessions : List WriteSession}
    {s : WriteSession}
    (member : s ∈ sessions) :
    ssFileHasActiveWriters sessions s.file = true :=
  List.any_eq_true.mpr ⟨s, member, by simp⟩

/-- Changes that keep each session's client keep the clients distinct. -/
theorem clients_nodup_map
    {sessions : List WriteSession}
    {change : WriteSession → WriteSession}
    (unaffected : ∀ t, (change t).clientFd = t.clientFd)
    (nodup : (sessions.map WriteSession.clientFd).Nodup) :
    ((sessions.map change).map WriteSession.clientFd).Nodup := by
  have kept :
      (sessions.map change).map WriteSession.clientFd =
        sessions.map WriteSession.clientFd := by
    rw [List.map_map]
    exact List.map_congr_left fun t _ => unaffected t
  rw [kept]
  exact nodup

/-- Fewer sessions on the same content are sound too. -/
theorem RecordSound.of_sublist
    {before after : StorageServer}
    {rec r : FileRecord}
    (sound : RecordSound before rec)
    (address_eq : r.address = rec.address)
    (bytesAt_eq :
      after.disk.bytesAt r.filepath = before.disk.bytesAt rec.filepath)
    (fewer :
      (after.sessionsOf rec.address).Sublist
        (before.sessionsOf rec.address)) :
    RecordSound after r := by
  obtain ⟨bytes, present, inPlace⟩ := sound
  refine ⟨bytes, bytesAt_eq.trans present, ?_⟩
  rw [address_eq]
  exact inPlace.of_sublist fewer

namespace SessionsSound

variable {ss : StorageServer}

/-- The sound record a session refers to. -/
theorem recordAt_eq
    (sound : SessionsSound ss)
    {s : WriteSession}
    (member : s ∈ ss.sessions) :
    ∃ rec ∈ ss.files,
      rec.address = s.file ∧ recordAt ss.files s.file = some rec ∧
        RecordSound ss rec := by
  obtain ⟨rec, present, same, recordSound⟩ := sound.in_place s member
  refine ⟨rec, present, same, ?_, recordSound⟩
  cases reached : recordAt ss.files s.file with
  | none =>
      have absent := List.find?_eq_none.mp reached rec present
      simp [same] at absent
  | some r =>
      obtain ⟨rPresent, rSame⟩ := mem_of_recordAt reached
      rw [eq_of_address sound.addresses_nodup rPresent present
        (rSame.trans same.symm)]

/-- Whoever has a session on the record, its view is in place. -/
theorem inPlace_view
    (sound : SessionsSound ss)
    {rec : FileRecord}
    (present : rec ∈ ss.files)
    {bytes : RawBytes}
    (stored : ss.disk.bytesAt rec.filepath = some bytes) :
    SessionsInPlace (ss.viewOf rec.address bytes) := by
  by_cases idle : ss.sessionsOf rec.address = []
  · constructor
    · constructor <;> simp [StorageServer.viewOf, idle]
    · simp [StorageServer.viewOf, idle]
  · obtain ⟨s, member⟩ := List.exists_mem_of_ne_nil _ idle
    obtain ⟨listed, onFile⟩ := mem_sessionsOf.mp member
    obtain ⟨r, rPresent, same, found, rStored, inPlace⟩ :=
      sound.in_place s listed
    obtain rfl :=
      eq_of_address sound.addresses_nodup rPresent present
        (same.trans onFile)
    rw [stored, Option.some.injEq] at rStored
    rw [rStored]
    exact inPlace

end SessionsSound

/-! ## Commands that keep the session table -/

/-- The record is still there, perhaps renamed, with the same content. -/
def ContentKept
    (ss : StorageServer)
    (event : SsEvent)
    (rec : FileRecord) : Prop :=
  ∃ r ∈ (ssStep ss event).files,
    r.address = rec.address ∧
      (ssStep ss event).disk.bytesAt r.filepath =
        ss.disk.bytesAt rec.filepath

theorem contentKept_of_not_subject
    {ss : StorageServer}
    (placed : RecordsPlaced ss)
    {event : SsEvent}
    {rec : FileRecord}
    (present : rec ∈ ss.files)
    (notSubject : event.subject ss ≠ some rec)
    (spared : rec.filepath ∉ writtenPaths ss event) :
    ContentKept ss event rec :=
  ⟨rec, placed.kept_of_not_subject present notSubject, rfl,
    (stepEffect ss event).disk_agrees.bytesAt_eq _ spared⟩

/-- A refused command changes neither records nor files. -/
theorem contentKept_of_idle
    {ss : StorageServer}
    {event : SsEvent}
    (idle : eventScope ss event = noScope True)
    (nothingWritten : writtenPaths ss event = [])
    (notCreate : ∀ msg, event.command ≠ .createFile msg)
    (notDeleted :
      ∀ msg, event.command = .deleteFile msg → deletedRecord ss msg = none)
    {rec : FileRecord}
    (present : rec ∈ ss.files) :
    ContentKept ss event rec := by
  have effect := stepEffect ss event
  have bytesKept :=
    effect.disk_agrees.bytesAt_eq rec.filepath (by simp [nothingWritten])
  cases effect.records with
  | kept files_eq nextAddress_eq =>
      exact ⟨rec, files_eq ▸ present, rfl, bytesKept⟩
  | stored atTarget allowed files_eq nextAddress_eq =>
      rw [idle] at allowed
      exact False.elim allowed
  | added isCreate created files_eq nextAddress_eq =>
      exact absurd isCreate (notCreate _)
  | removed isDelete deleted files_eq nextAddress_eq =>
      rw [notDeleted _ isDelete] at deleted
      cases deleted

theorem admittedRecord_of_active
    {ss : StorageServer}
    {filename : CString}
    {rec : FileRecord}
    (found : ssFindFile ss.files filename = some rec)
    (active : ssFileHasActiveWriters ss.sessions rec.address = true)
    (username : CString) :
    admittedRecord ss username filename = none := by
  simp [admittedRecord, found, active]

theorem deletedRecord_of_active
    {ss : StorageServer}
    {filename : CString}
    {rec : FileRecord}
    (found : ssFindFile ss.files filename = some rec)
    (active : ssFileHasActiveWriters ss.sessions rec.address = true)
    (type : CString)
    (rest : List CString) :
    deletedRecord ss (type :: filename :: rest) = none := by
  simp [deletedRecord, found, active]

theorem copyTarget_of_active
    {ss : StorageServer}
    {destFilename : CString}
    {rec : FileRecord}
    (found : ssFindFile ss.files destFilename = some rec)
    (active : ssFileHasActiveWriters ss.sessions rec.address = true)
    (type : CString)
    (rest : List CString) :
    copyTarget ss (type :: destFilename :: rest) = none := by
  match rest with
  | srcIp :: srcPortField :: srcFilename :: username :: _ =>
      simp [copyTarget, admittedCopy, found, active]
  | [] | [_] | [_, _] | [_, _, _] =>
      rfl

/-- A rename carries the content of a record along. -/
theorem contentKept_of_ssRename
    {ss : StorageServer}
    (sound : SessionsSound ss)
    {now : Int}
    {oldLogical newLogical : CString}
    (spares : SparesOpenFiles ss ⟨now, .ssRename oldLogical newLogical⟩)
    {rec : FileRecord}
    (found : ssFindFile ss.files oldLogical = some rec)
    (active : ssFileHasActiveWriters ss.sessions rec.address = true)
    {bytes : RawBytes}
    (stored : ss.disk.bytesAt rec.filepath = some bytes) :
    ContentKept ss ⟨now, .ssRename oldLogical newLogical⟩ rec := by
  have present := (ssFindFile_filename found).1
  cases admitted : renamedRecord ss oldLogical newLogical with
  | none =>
      refine contentKept_of_idle ?_ ?_ (fun _ => by simp) (by simp) present
      · simp [eventScope, renameCommandScope, admitted]
      · simp [writtenPaths, eventScope, renameCommandScope, admitted,
          noScope]
  | some r =>
      obtain rfl : r = rec := by
        simp only [renamedRecord, Option.ite_none_right_eq_some]
          at admitted
        exact Option.some.inj (admitted.2.symm.trans found)
      have nameShort : newLogical.length < maxFilenameLength := by
        simp only [renamedRecord, Option.ite_none_right_eq_some,
          Bool.and_eq_true] at admitted
        exact length_of_validateFilename admitted.1.2
      have placed := sound.wellPlaced r present
      obtain ⟨_, disk, sent, stepped, arrived, _⟩ :=
        ssStep_ssRename_undisturbed sound.undisturbed now admitted placed
          stored
          (spares.renamed (r, contentPath ss.storagePath newLogical)
            (by simp [movedFile, found]) active)
      obtain ⟨renamedPlaced, _⟩ :=
        paths_renamed ss.storagePath.property nameShort now r
      rw [ContentKept, stepped]
      refine ⟨_, List.mem_map.mpr ⟨r, present, if_pos rfl⟩, rfl, ?_⟩
      rw [renamedPlaced.filepath_eq, stored, ← arrived]
      congr 2
      exact safeStrcpy_of_short nameShort

/-- A document with open sessions keeps its content through other commands. -/
theorem contentKept_of_keepsSessions
    {ss : StorageServer}
    (sound : SessionsSound ss)
    {event : SsEvent}
    (spares : SparesOpenFiles ss event)
    (keeps : (eventScope ss event).keepsSessions)
    {rec : FileRecord}
    (present : rec ∈ ss.files)
    (active : ssFileHasActiveWriters ss.sessions rec.address = true)
    {bytes : RawBytes}
    (stored : ss.disk.bytesAt rec.filepath = some bytes) :
    ContentKept ss event rec := by
  by_cases subject : event.subject ss = some rec
  · obtain ⟨now, command⟩ := event
    cases command with
    | writeLock fd msg =>
        simp [SsEvent.subject] at subject
    | writeData fd msg =>
        simp [SsEvent.subject] at subject
    | disconnected fd =>
        simp [SsEvent.subject] at subject
    | createFile msg =>
        simp [SsEvent.subject] at subject
    | etirw fd =>
        simp only [SsEvent.subject, Option.bind_eq_some_iff] at subject
        obtain ⟨session, found, reached⟩ := subject
        simp [eventScope, etirwScope, found, reached, contentScope] at keeps
    | undo fd msg =>
        rcases msg with _ | ⟨type, _ | ⟨username, _ | ⟨filename, rest⟩⟩⟩
        iterate 3 simp [SsEvent.subject] at subject
        have refused := admittedRecord_of_active subject active username
        refine contentKept_of_idle ?_ ?_ (fun _ => by simp) (by simp)
          present
        · simp [eventScope, undoScope, admittedContentScope, refused]
        · simp [writtenPaths, eventScope, undoScope,
            admittedContentScope, refused, noScope]
    | revert fd msg =>
        rcases msg with _ | ⟨type, _ | ⟨username, _ | ⟨filename, rest⟩⟩⟩
        iterate 3 simp [SsEvent.subject] at subject
        have refused := admittedRecord_of_active subject active username
        have idle :
            eventScope ss
                ⟨now, .revert fd (type :: username :: filename :: rest)⟩ =
              noScope True := by
          cases rest <;>
            simp [eventScope, revertScope, admittedContentScope, refused]
        refine contentKept_of_idle idle ?_ (fun _ => by simp) (by simp)
          present
        simp [writtenPaths, idle, noScope]
    | checkpoint fd msg =>
        rcases msg with _ | ⟨type, _ | ⟨username, _ | ⟨filename, rest⟩⟩⟩
        iterate 3 simp [SsEvent.subject] at subject
        have refused := admittedRecord_of_active subject active username
        have idle :
            eventScope ss
                ⟨now, .checkpoint fd
                  (type :: username :: filename :: rest)⟩ =
              noScope True := by
          cases rest <;>
            simp [eventScope, checkpointCommandScope, checkpointTarget,
              refused]
        refine contentKept_of_idle idle ?_ (fun _ => by simp) (by simp)
          present
        simp [writtenPaths, idle, noScope]
    | deleteFile msg =>
        rcases msg with _ | ⟨type, _ | ⟨filename, rest⟩⟩
        iterate 2 simp [SsEvent.subject] at subject
        have refused :=
          deletedRecord_of_active subject active type rest
        refine contentKept_of_idle rfl ?_ (fun _ => by simp) ?_ present
        · simp [writtenPaths, refused]
        · rintro msg same
          rw [← SsCommand.deleteFile.inj same]
          exact refused
    | ssRename oldLogical newLogical =>
        exact contentKept_of_ssRename sound spares subject active stored
    | ssCopy peer msg =>
        rcases msg with _ | ⟨type, _ | ⟨destFilename, rest⟩⟩
        iterate 2 simp [SsEvent.subject] at subject
        have refused := copyTarget_of_active subject active type rest
        refine contentKept_of_idle ?_ ?_ (fun _ => by simp) (by simp)
          present
        · simp [eventScope, copyCommandScope, refused]
        · simp [writtenPaths, eventScope, copyCommandScope, refused,
            noScope]
  · exact contentKept_of_not_subject sound.toRecordsPlaced present subject
      (spares.others rec present active subject)

/-- What every step preserves, whatever the command. -/
theorem SessionsSound.of_in_place
    {ss : StorageServer}
    (sound : SessionsSound ss)
    (event : SsEvent)
    (clients_nodup :
      ((ssStep ss event).sessions.map WriteSession.clientFd).Nodup)
    (in_place :
      ∀ s ∈ (ssStep ss event).sessions,
        ∃ rec ∈ (ssStep ss event).files,
          rec.address = s.file ∧ RecordSound (ssStep ss event) rec) :
    SessionsSound (ssStep ss event) where
  toRecordsPlaced := sound.toRecordsPlaced.ssStep event
  undisturbed :=
    (stepEffect ss event).disk_agrees.undisturbed sound.undisturbed
  clients_nodup := clients_nodup
  in_place := in_place

theorem SessionsSound.step_of_keepsSessions
    {ss : StorageServer}
    (sound : SessionsSound ss)
    {event : SsEvent}
    (spares : SparesOpenFiles ss event)
    (keeps : (eventScope ss event).keepsSessions) :
    SessionsSound (ssStep ss event) := by
  have sessions_eq := (stepEffect ss event).sessions_eq keeps
  refine sound.of_in_place event (sessions_eq ▸ sound.clients_nodup) ?_
  intro s member
  rw [sessions_eq] at member
  obtain ⟨rec, present, same, recordSound⟩ := sound.in_place s member
  obtain ⟨bytes, stored, _⟩ := id recordSound
  have active : ssFileHasActiveWriters ss.sessions rec.address = true :=
    same ▸ active_of_mem member
  obtain ⟨r, kept, address_eq, bytesAt_eq⟩ :=
    contentKept_of_keepsSessions sound spares keeps present active stored
  refine ⟨r, kept, address_eq.trans same,
    recordSound.of_sublist address_eq bytesAt_eq ?_⟩
  rw [StorageServer.sessionsOf, sessions_eq]
  exact List.Sublist.refl _

/-! ## Commands on sessions -/

/-- Commands on sessions leave records and files alone. -/
theorem ssStep_of_idle_scope
    {ss : StorageServer}
    {event : SsEvent}
    (idle : eventScope ss event = noScope False)
    (keepsRecords : event.command.changesRecords = false) :
    (ssStep ss event).files = ss.files ∧
      (ssStep ss event).disk.bytesAt = ss.disk.bytesAt := by
  have effect := ssStep_effect ss event keepsRecords
  rw [idle] at effect
  refine ⟨effect.files_eq_of_allows_nothing fun _ => id, ?_⟩
  funext path
  exact effect.disk_agrees.bytesAt_eq path (by simp [noScope])

/-- Sessions that are some of the old ones stay sound. -/
theorem SessionsSound.step_of_fewer_sessions
    {ss : StorageServer}
    (sound : SessionsSound ss)
    {event : SsEvent}
    (idle : eventScope ss event = noScope False)
    (keepsRecords : event.command.changesRecords = false)
    (fewer : (ssStep ss event).sessions.Sublist ss.sessions) :
    SessionsSound (ssStep ss event) := by
  obtain ⟨files_eq, bytesAt_eq⟩ := ssStep_of_idle_scope idle keepsRecords
  refine sound.of_in_place event
    ((fewer.map _).nodup sound.clients_nodup) ?_
  intro s member
  obtain ⟨rec, present, same, recordSound⟩ :=
    sound.in_place s (fewer.subset member)
  exact ⟨rec, files_eq ▸ present, same,
    recordSound.of_sublist rfl (congrFun bytesAt_eq _) (fewer.filter _)⟩

theorem sessions_ssStep (ss : StorageServer) (event : SsEvent) :
    (ssStep ss event).sessions =
      (finalState (event.handler ss)).sessions := by
  obtain ⟨sent, stepped⟩ := ssStep_eq ss event
  rw [stepped]

/-- The session table after a `REQ_WRITE_LOCK`. -/
inductive LockOutcome
    (ss : StorageServer)
    (fd : Nat) : List WriteSession → Prop
  | refused (fewer : List WriteSession) (sub : fewer.Sublist ss.sessions) :
      LockOutcome ss fd fewer
  | opened
      {rec : FileRecord}
      {bytes : RawBytes}
      {sentenceIndex : Int}
      {start stop : Nat}
      (username : CString)
      (present : rec ∈ ss.files)
      (stored : ss.disk.bytesAt rec.filepath = some bytes)
      (free :
        ssFindSessionBySentence (ssDetachSession ss.sessions fd) rec.address
          sentenceIndex = none)
      (found :
        ssGetSentenceBounds (cString bytes) sentenceIndex =
          some (start, stop)) :
      LockOutcome ss fd
        (ssCreateSession (ssDetachSession ss.sessions fd) fd rec.address
          username sentenceIndex start stop (cString bytes)
          (slice (cString bytes) start stop))

theorem ssDetachSession_sublist
    (sessions : List WriteSession)
    (fd : Nat) :
    (ssDetachSession sessions fd).Sublist sessions :=
  List.eraseP_sublist

theorem lockSentence_outcome
    (ss : StorageServer)
    (undisturbed : ss.disk.outcomes = [])
    (fd : Nat)
    (username indexField : CString)
    (sentenceIndex : Int)
    (rec : FileRecord) :
    (finalState
        (lockSentence fd username indexField sentenceIndex rec ss)).sessions =
        ss.sessions ∨
      ∃ bytes start stop,
        ss.disk.bytesAt rec.filepath = some bytes ∧
          ssFindSessionBySentence ss.sessions rec.address sentenceIndex =
            none ∧
          ssGetSentenceBounds (cString bytes) sentenceIndex =
            some (start, stop) ∧
          (finalState
              (lockSentence fd username indexField sentenceIndex rec
                ss)).sessions =
            ssCreateSession ss.sessions fd rec.address username
              sentenceIndex start stop (cString bytes)
              (slice (cString bytes) start stop) := by
  by_cases access : ssCheckWriteAccess rec username = true
  · cases free :
        ssFindSessionBySentence ss.sessions rec.address sentenceIndex with
    | some other =>
        exact Or.inl (by simp [lockSentence, access, free])
    | none =>
        cases stored : ss.disk.bytesAt rec.filepath with
        | none =>
            exact Or.inl (by
              simp [lockSentence, access, free, stored,
                ssReadFileContent_undisturbed undisturbed])
        | some bytes =>
            cases found :
                ssGetSentenceBounds (cString bytes) sentenceIndex with
            | none =>
                exact Or.inl (by
                  simp [lockSentence, access, free, stored, found,
                    ssReadFileContent_undisturbed undisturbed])
            | some range =>
                refine Or.inr ⟨bytes, range.1, range.2, rfl, rfl, found, ?_⟩
                simp [lockSentence, access, free, stored, found,
                  ssReadFileContent_undisturbed undisturbed]
  · exact Or.inl (by simp [lockSentence, access])

theorem handleClientWriteLock_outcome
    {ss : StorageServer}
    (undisturbed : ss.disk.outcomes = [])
    (fd : Nat)
    (msg : List CString) :
    LockOutcome ss fd
      (finalState (handleClientWriteLock fd msg ss)).sessions := by
  have detached := ssDetachSession_sublist ss.sessions fd
  match msg with
  | _ :: username :: filename :: indexField :: _ =>
      simp only [handleClientWriteLock]
      cases parsed : parseInt indexField with
      | none =>
          exact .refused _ (List.Sublist.refl _)
      | some sentenceIndex =>
          by_cases nonneg : 0 ≤ sentenceIndex
          · simp only [bind_apply, ensure_apply, nonneg, decide_true,
              ↓reduceIte, modifySessions_apply, get_apply]
            cases located : ssFindFile ss.files filename with
            | none =>
                exact .refused _ detached
            | some rec =>
                have shape :=
                  lockSentence_outcome
                    { ss with sessions := ssDetachSession ss.sessions fd }
                    undisturbed fd username indexField sentenceIndex rec
                simp only
                rcases shape with
                  kept | ⟨bytes, start, stop, stored, free, found, opened⟩
                · rw [kept]
                  exact .refused _ detached
                · rw [opened]
                  exact .opened username (ssFindFile_filename located).1
                    stored free found
          · simp only [bind_apply, ensure_apply, nonneg, decide_false,
              Bool.false_eq_true, ↓reduceIte, refuse_apply]
            exact .refused _ (List.Sublist.refl _)
  | [] | [_] | [_, _] | [_, _, _] =>
      exact .refused _ (List.Sublist.refl _)

/-- A change of sessions alone keeps a record sound if its view stays in place. -/
theorem RecordSound.of_view
    {before after : StorageServer}
    {rec : FileRecord}
    {bytes : RawBytes}
    (stored : before.disk.bytesAt rec.filepath = some bytes)
    (bytesAt_eq : after.disk.bytesAt = before.disk.bytesAt)
    (inPlace : SessionsInPlace (after.viewOf rec.address bytes)) :
    RecordSound after rec :=
  ⟨bytes, by rw [bytesAt_eq]; exact stored, inPlace⟩

theorem SessionsSound.step_of_opened
    {ss : StorageServer}
    (sound : SessionsSound ss)
    {event : SsEvent}
    (idle : eventScope ss event = noScope False)
    (keepsRecords : event.command.changesRecords = false)
    {fd : Nat}
    {rec : FileRecord}
    (present : rec ∈ ss.files)
    {bytes : RawBytes}
    (stored : ss.disk.bytesAt rec.filepath = some bytes)
    {sentenceIndex : Int}
    {start stop : Nat}
    (username : CString)
    (free :
      ssFindSessionBySentence (ssDetachSession ss.sessions fd) rec.address
        sentenceIndex = none)
    (found :
      ssGetSentenceBounds (cString bytes) sentenceIndex =
        some (start, stop))
    (opened :
      (ssStep ss event).sessions =
        ssCreateSession (ssDetachSession ss.sessions fd) fd rec.address
          username sentenceIndex start stop (cString bytes)
          (slice (cString bytes) start stop)) :
    SessionsSound (ssStep ss event) := by
  obtain ⟨files_eq, bytesAt_eq⟩ := ssStep_of_idle_scope idle keepsRecords
  have detached := ssDetachSession_sublist ss.sessions fd
  have others :
      ∀ t ∈ ssDetachSession ss.sessions fd, t.clientFd ≠ fd := by
    intro t member
    rw [ssDetachSession_eq_filter sound.clients_nodup] at member
    simpa using (List.mem_filter.mp member).2
  generalize sessionsEq : ssDetachSession ss.sessions fd = remaining
    at opened detached others free
  -- the view of the locked record, before and after the new session
  have cleared :
      SessionsInPlace
        ⟨rec.address, cString bytes,
          remaining.filter fun s => s.file = rec.address⟩ :=
    (sound.inPlace_view present stored).of_sublist (detached.filter _)
  have locked :
      SessionsInPlace ((ssStep ss event).viewOf rec.address bytes) := by
    rw [StorageServer.viewOf, StorageServer.sessionsOf, opened,
      ssCreateSession, List.filter_cons_of_pos (by simp)]
    refine cleared.lock rfl ?_ ?_ found rfl
    · intro t member
      exact others t (List.mem_filter.mp member).1
    · intro t member sameIndex
      obtain ⟨listed, onFile⟩ := List.mem_filter.mp member
      have absent := List.find?_eq_none.mp free t listed
      simp only [decide_eq_true_eq] at onFile
      simp [onFile, sameIndex] at absent
  have recSound : RecordSound (ssStep ss event) rec :=
    .of_view stored bytesAt_eq locked
  refine sound.of_in_place event ?_ ?_
  · rw [opened, ssCreateSession, List.map_cons, List.nodup_cons]
    refine ⟨?_, (detached.map _).nodup sound.clients_nodup⟩
    intro listed
    obtain ⟨t, member, same⟩ := List.mem_map.mp listed
    exact others t member same
  · intro s member
    rw [opened, ssCreateSession] at member
    rcases List.mem_cons.mp member with rfl | old
    · exact ⟨rec, files_eq ▸ present, rfl, recSound⟩
    · obtain ⟨r, rPresent, same, rSound⟩ :=
        sound.in_place s (detached.subset old)
      refine ⟨r, files_eq ▸ rPresent, same, ?_⟩
      by_cases here : r.address = rec.address
      · rw [eq_of_address sound.addresses_nodup rPresent present here]
        exact recSound
      · refine rSound.of_sublist rfl (congrFun bytesAt_eq _) ?_
        rw [StorageServer.sessionsOf, opened, ssCreateSession,
          List.filter_cons_of_neg (by simpa using fun same => here same.symm)]
        exact detached.filter _

theorem SessionsSound.step_writeLock
    {ss : StorageServer}
    (sound : SessionsSound ss)
    (now : Int)
    (fd : Nat)
    (msg : List CString) :
    SessionsSound (ssStep ss ⟨now, .writeLock fd msg⟩) := by
  have outcome := handleClientWriteLock_outcome sound.undisturbed fd msg
  have ended := sessions_ssStep ss ⟨now, .writeLock fd msg⟩
  simp only [SsEvent.handler] at ended
  rw [← ended] at outcome
  generalize shape : (ssStep ss ⟨now, .writeLock fd msg⟩).sessions = table
    at outcome
  cases outcome with
  | refused fewer sub =>
      exact sound.step_of_fewer_sessions rfl rfl (shape ▸ sub)
  | opened username present stored free found =>
      exact sound.step_of_opened rfl rfl present stored username free found
        shape

theorem handleClientWriteData_outcome
    (fd : Nat)
    (msg : List CString)
    (ss : StorageServer) :
    (finalState (handleClientWriteData fd msg ss)).sessions = ss.sessions ∨
      ∃ session wordIndex content joined,
        ssFindSession ss.sessions fd = some session ∧
          ssApplyWordEdit session.sentenceWorking wordIndex content =
            some joined ∧
          (finalState (handleClientWriteData fd msg ss)).sessions =
            setSentenceWorking ss.sessions fd joined := by
  match msg with
  | _ :: indexField :: content :: _ =>
      cases parsed : parseInt indexField with
      | none =>
          exact Or.inl (by simp [handleClientWriteData, parsed])
      | some wordIndex =>
          by_cases nonneg : 0 ≤ wordIndex
          · cases found : ssFindSession ss.sessions fd with
            | none =>
                exact Or.inl (by
                  simp [handleClientWriteData, parsed, nonneg, found])
            | some session =>
                cases edited :
                    ssApplyWordEdit session.sentenceWorking wordIndex
                      content with
                | none =>
                    exact Or.inl (by
                      simp [handleClientWriteData, parsed, nonneg, found,
                        edited])
                | some joined =>
                    refine Or.inr
                      ⟨session, wordIndex, content, joined, rfl, edited, ?_⟩
                    simp [handleClientWriteData, parsed, nonneg, found,
                      edited]
          · exact Or.inl (by simp [handleClientWriteData, parsed, nonneg])
  | [] | [_] | [_, _] =>
      exact Or.inl rfl

theorem SessionsSound.step_writeData
    {ss : StorageServer}
    (sound : SessionsSound ss)
    (now : Int)
    (fd : Nat)
    (msg : List CString) :
    SessionsSound (ssStep ss ⟨now, .writeData fd msg⟩) := by
  have ended := sessions_ssStep ss ⟨now, .writeData fd msg⟩
  simp only [SsEvent.handler] at ended
  rcases handleClientWriteData_outcome fd msg ss with
    kept | ⟨session, wordIndex, content, joined, found, edited, changed⟩
  · refine sound.step_of_fewer_sessions rfl rfl ?_
    rw [ended, kept]
  · obtain ⟨files_eq, bytesAt_eq⟩ :=
      @ssStep_of_idle_scope ss ⟨now, .writeData fd msg⟩ rfl rfl
    rw [changed, setSentenceWorking] at ended
    have clientOf :
        ∀ t : WriteSession,
          (if t.clientFd = fd then { t with sentenceWorking := joined }
            else t).clientFd = t.clientFd := by
      intro t
      split <;> rfl
    have fileOf :
        ∀ t : WriteSession,
          (if t.clientFd = fd then { t with sentenceWorking := joined }
            else t).file = t.file := by
      intro t
      split <;> rfl
    refine sound.of_in_place _ ?_ ?_
    · rw [ended]
      exact clients_nodup_map clientOf sound.clients_nodup
    · intro s member
      rw [ended] at member
      obtain ⟨t, listed, rfl⟩ := List.mem_map.mp member
      obtain ⟨rec, present, same, bytes, stored, inPlace⟩ :=
        sound.in_place t listed
      refine ⟨rec, files_eq ▸ present, same.trans (fileOf t).symm,
        .of_view stored bytesAt_eq ?_⟩
      rw [StorageServer.viewOf, StorageServer.sessionsOf, ended,
        List.filter_map]
      have sameFilter :
          ((fun s : WriteSession => decide (s.file = rec.address)) ∘
              fun t : WriteSession =>
                if t.clientFd = fd then
                  { t with sentenceWorking := joined }
                else t) =
            fun s => decide (s.file = rec.address) := by
        funext t
        simp only [Function.comp_apply, fileOf]
      rw [sameFilter]
      refine inPlace.edit _ ?_
      intro u uMember
      by_cases editing : u.clientFd = fd
      · have uListed := (mem_sessionsOf.mp uMember).1
        have isSession :=
          ssFindSession_eq_some sound.clients_nodup uListed
        rw [editing, found, Option.some.injEq] at isSession
        subst isSession
        exact ⟨joined, if_pos editing, fun ends =>
          endsWithDelimiter_ssApplyWordEdit ends edited⟩
      · exact ⟨u.sentenceWorking, if_neg editing, id⟩

/-! ## Commits -/

/-- The session table after the commit of `s` on content `bytes`. -/
def sessionsAfterCommit
    (sessions : List WriteSession)
    (s : WriteSession)
    (bytes : RawBytes) : List WriteSession :=
  ssDetachSession
    (ssUpdateActiveSessions sessions s.file s.sentenceStart
      (s.sentenceEnd - s.sentenceStart) s.sentenceWorking.length
      (etirwSentenceDelta (cString bytes) s.sentenceStart s.sentenceEnd
        s.sentenceWorking)
      s.clientFd)
    s.clientFd

/-- A commit changes the other sessions one by one and removes its own. -/
theorem sessionsAfterCommit_eq
    {sessions : List WriteSession}
    (clients_nodup : (sessions.map WriteSession.clientFd).Nodup)
    (s : WriteSession)
    (bytes : RawBytes) :
    sessionsAfterCommit sessions s bytes =
      (sessions.filter fun t => t.clientFd ≠ s.clientFd).map
        (WriteSession.afterEdit s.file s.sentenceStart
          (s.sentenceEnd - s.sentenceStart) s.sentenceWorking.length
          (etirwSentenceDelta (cString bytes) s.sentenceStart s.sentenceEnd
            s.sentenceWorking)
          s.clientFd) := by
  have updatedNodup :
      ((ssUpdateActiveSessions sessions s.file s.sentenceStart
          (s.sentenceEnd - s.sentenceStart) s.sentenceWorking.length
          (etirwSentenceDelta (cString bytes) s.sentenceStart s.sentenceEnd
            s.sentenceWorking)
          s.clientFd).map WriteSession.clientFd).Nodup := by
    exact clients_nodup_map (fun t => by simp) clients_nodup
  rw [sessionsAfterCommit, ssDetachSession_eq_filter updatedNodup,
    ssUpdateActiveSessions, List.filter_map]
  congr 1
  apply List.filter_congr
  intro t _
  simp

/-- The commit of a session, seen from the view of its record. -/
theorem viewOf_commit
    {ss : StorageServer}
    (clients_nodup : (ss.sessions.map WriteSession.clientFd).Nodup)
    {s : WriteSession}
    (member : s ∈ ss.sessions)
    (bytes : RawBytes)
    (valid :
      invalidSentenceBounds (cString bytes) s.sentenceStart s.sentenceEnd =
        false) :
    (ss.viewOf s.file bytes).commit s.clientFd =
      { file := s.file
        content :=
          splice (cString bytes) s.sentenceStart s.sentenceEnd
            s.sentenceWorking
        sessions :=
          (sessionsAfterCommit ss.sessions s bytes).filter fun t =>
            t.file = s.file } := by
  have onFile : s ∈ ss.sessionsOf s.file :=
    mem_sessionsOf.mpr ⟨member, rfl⟩
  have viewNodup :
      ((ss.sessionsOf s.file).map WriteSession.clientFd).Nodup :=
    (List.filter_sublist.map _).nodup clients_nodup
  have inView :
      (ss.viewOf s.file bytes).commit s.clientFd =
        { file := s.file
          content :=
            splice (cString bytes) s.sentenceStart s.sentenceEnd
              s.sentenceWorking
          sessions :=
            sessionsAfterCommit (ss.sessionsOf s.file) s bytes } := by
    simp only [FileView.commit, FileView.commitSection,
      StorageServer.viewOf, ssFindSession_eq_some viewNodup onFile, valid,
      Bool.false_eq_true, ↓reduceIte, sessionsAfterCommit]
  rw [inView, sessionsAfterCommit_eq viewNodup,
    sessionsAfterCommit_eq clients_nodup, StorageServer.sessionsOf,
    List.filter_map, List.filter_filter, List.filter_filter]
  congr 2
  apply List.filter_congr
  intro t _
  simp [Bool.and_comm]

/-- A commit leaves the sessions of other records as they are. -/
theorem sessionsAfterCommit_other
    {sessions : List WriteSession}
    (clients_nodup : (sessions.map WriteSession.clientFd).Nodup)
    {s : WriteSession}
    (member : s ∈ sessions)
    (bytes : RawBytes)
    {address : Nat}
    (other : address ≠ s.file) :
    (sessionsAfterCommit sessions s bytes).filter
        (fun t => t.file = address) =
      sessions.filter fun t => t.file = address := by
  have survives :
      ∀ t ∈ sessions, t.file = address → t.clientFd ≠ s.clientFd := by
    intro t present onFile sameClient
    have sameSession :=
      session_eq_of_clientFd clients_nodup present member sameClient
    exact other (onFile ▸ congrArg WriteSession.file sameSession)
  rw [sessionsAfterCommit_eq clients_nodup, List.filter_map,
    List.filter_filter]
  have sameFilter :
      sessions.filter
          (fun t =>
            ((fun u : WriteSession => decide (u.file = address)) ∘
                WriteSession.afterEdit s.file s.sentenceStart
                  (s.sentenceEnd - s.sentenceStart)
                  s.sentenceWorking.length
                  (etirwSentenceDelta (cString bytes) s.sentenceStart
                    s.sentenceEnd s.sentenceWorking)
                  s.clientFd) t &&
              decide (t.clientFd ≠ s.clientFd)) =
        sessions.filter fun t => t.file = address := by
    apply List.filter_congr
    intro t present
    by_cases onFile : t.file = address
    · simp [onFile, survives t present onFile]
    · simp [onFile]
  rw [sameFilter]
  refine (List.map_congr_left ?_).trans (List.map_id _)
  intro t kept
  have onFile : t.file = address := by
    simpa using (List.mem_filter.mp kept).2
  have elsewhere : t.file ≠ s.file := onFile ▸ other
  simp [WriteSession.afterEdit, elsewhere]

theorem SessionsSound.valid_bounds
    {ss : StorageServer}
    (sound : SessionsSound ss)
    {s : WriteSession}
    (member : s ∈ ss.sessions)
    {rec : FileRecord}
    (present : rec ∈ ss.files)
    (same : rec.address = s.file)
    {bytes : RawBytes}
    (stored : ss.disk.bytesAt rec.filepath = some bytes) :
    invalidSentenceBounds (cString bytes) s.sentenceStart s.sentenceEnd =
      false :=
  (sound.inPlace_view present stored).tracks.valid_bounds
    (mem_sessionsOf.mpr ⟨member, same.symm⟩)

/-- An `ETIRW` in a sound state succeeds. -/
theorem SessionsSound.handleClientEtirw_eq
    {ss : StorageServer}
    (sound : SessionsSound ss)
    (now : Int)
    {s : WriteSession}
    (member : s ∈ ss.sessions) :
    ∃ rec bytes after,
      rec ∈ ss.files ∧ rec.address = s.file ∧
        ss.disk.bytesAt rec.filepath = some bytes ∧
        handleClientEtirw now s.clientFd ss = .ok () after ∧
        after.files = storeRecord (rec.rewritten now s.username 1) ss.files ∧
        after.sessions = sessionsAfterCommit ss.sessions s bytes ∧
        after.disk.bytesAt rec.filepath =
          some (rawBytes
            (splice (cString bytes) s.sentenceStart s.sentenceEnd
              s.sentenceWorking)) := by
  obtain ⟨rec, present, same, reached, bytes, stored, _⟩ :=
    sound.recordAt_eq member
  have found := ssFindSession_eq_some sound.clients_nodup member
  have placed := sound.wellPlaced rec present
  have metaApart : rec.filepath ≠ rec.metapath := by
    rw [placed.metapath_eq]
    simpa using (by decide : ssMetaSuffix ≠ [])
  have committed :=
    commitSession_undisturbed sound.undisturbed now s.clientFd s rec
      metaApart stored (sound.valid_bounds member present same stored)
  have ended :
      handleClientEtirw now s.clientFd ss =
        commitSession now s.clientFd s rec ss := by
    simp only [handleClientEtirw, bind_apply, get_apply, found, reached]
  refine ⟨rec, bytes, _, present, same, stored, ended.trans committed, rfl,
    ?_, ?_⟩
  · rw [sessionsAfterCommit, same]
  · rw [FileRecord.diskAfter, Disk.bytesAt_set_of_ne metaApart,
      Disk.bytesAt_set_same]

theorem SessionsSound.step_etirw
    {ss : StorageServer}
    (sound : SessionsSound ss)
    {now : Int}
    {fd : Nat}
    (spares : SparesOpenFiles ss ⟨now, .etirw fd⟩) :
    SessionsSound (ssStep ss ⟨now, .etirw fd⟩) := by
  cases found : ssFindSession ss.sessions fd with
  | none =>
      exact sound.step_of_keepsSessions spares
        (by simp [eventScope, etirwScope, found, noScope])
  | some s =>
      have member := List.mem_of_find?_eq_some found
      obtain rfl : s.clientFd = fd := by
        simpa using List.find?_some found
      obtain ⟨rec, bytes, after, present, same, stored, committed, files_eq,
        sessions_eq, content_eq⟩ := sound.handleClientEtirw_eq now member
      have stepped : ssStep ss ⟨now, .etirw s.clientFd⟩ = after := by
        simp only [ssStep, SsEvent.handler, committed]
      have valid := sound.valid_bounds member present same stored
      have reached : recordAt ss.files s.file = some rec := by
        obtain ⟨r, rPresent, rSame, rReached, _⟩ := sound.recordAt_eq member
        rw [rReached, eq_of_address sound.addresses_nodup rPresent present
          (rSame.trans same.symm)]
      have subject :
          SsEvent.subject ss ⟨now, .etirw s.clientFd⟩ = some rec := by
        simp [SsEvent.subject, found, reached]
      have clients := sessionsAfterCommit_eq sound.clients_nodup s bytes
      refine sound.of_in_place _ ?_ ?_
      · rw [stepped, sessions_eq, clients]
        exact clients_nodup_map (fun t => by simp)
          ((List.filter_sublist.map _).nodup sound.clients_nodup)
      · intro t tMember
        rw [stepped, sessions_eq, clients] at tMember
        obtain ⟨u, kept, rfl⟩ := List.mem_map.mp tMember
        have uMember := (List.mem_filter.mp kept).1
        rw [WriteSession.file_afterEdit]
        by_cases here : u.file = s.file
        · refine ⟨rec.rewritten now s.username 1, ?_, same.trans here.symm,
            _, stepped ▸ content_eq, ?_⟩
          · rw [stepped, files_eq]
            exact List.mem_map.mpr ⟨rec, present, if_pos rfl⟩
          · have inPlace :=
              (sound.inPlace_view present stored).commit
                (mem_sessionsOf.mpr ⟨member, same.symm⟩)
            rw [same, viewOf_commit sound.clients_nodup member bytes valid]
              at inPlace
            rw [StorageServer.viewOf, StorageServer.sessionsOf, stepped,
              sessions_eq, cString_rawBytes]
            exact same ▸ inPlace
        · obtain ⟨r, rPresent, rSame, rSound⟩ := sound.in_place u uMember
          have notSubject :
              SsEvent.subject ss ⟨now, .etirw s.clientFd⟩ ≠ some r := by
            rw [subject]
            intro sameRecord
            obtain rfl := Option.some.inj sameRecord
            exact here (rSame.symm.trans same)
          have active :
              ssFileHasActiveWriters ss.sessions r.address = true :=
            rSame ▸ active_of_mem uMember
          obtain ⟨q, qKept, address_eq, bytesAt_eq⟩ :=
            contentKept_of_not_subject sound.toRecordsPlaced rPresent
              notSubject (spares.others r rPresent active notSubject)
          refine ⟨q, qKept, address_eq.trans rSame,
            rSound.of_sublist address_eq bytesAt_eq ?_⟩
          rw [StorageServer.sessionsOf, StorageServer.sessionsOf, stepped,
            sessions_eq,
            sessionsAfterCommit_other sound.clients_nodup member bytes
              (rSame ▸ here)]

/-! ## Runs -/

/-- Commands that change the session table. -/
def SsCommand.changesSessions : SsCommand → Bool
  | writeLock _ _ => true
  | writeData _ _ => true
  | etirw _ => true
  | disconnected _ => true
  | _ => false

theorem keepsSessions_admittedContentScope
    (ss : StorageServer)
    (username filename : CString) :
    (admittedContentScope ss username filename).keepsSessions := by
  unfold admittedContentScope
  split <;> trivial

theorem keepsSessions_of_changesSessions
    {ss : StorageServer}
    (event : SsEvent)
    (keeps : event.command.changesSessions = false) :
    (eventScope ss event).keepsSessions := by
  obtain ⟨now, command⟩ := event
  cases command with
  | writeLock fd msg =>
      cases keeps
  | writeData fd msg =>
      cases keeps
  | etirw fd =>
      cases keeps
  | disconnected fd =>
      cases keeps
  | createFile msg =>
      trivial
  | deleteFile msg =>
      trivial
  | undo fd msg =>
      simp only [eventScope, undoScope]
      split
      · exact keepsSessions_admittedContentScope _ _ _
      · trivial
  | revert fd msg =>
      simp only [eventScope, revertScope]
      split
      · split
        · exact keepsSessions_admittedContentScope _ _ _
        · trivial
      · trivial
  | checkpoint fd msg =>
      simp only [eventScope, checkpointCommandScope]
      split <;> trivial
  | ssRename oldLogical newLogical =>
      simp only [eventScope, renameCommandScope]
      split <;> trivial
  | ssCopy peer msg =>
      simp only [eventScope, copyCommandScope]
      split <;> trivial

/-- Every step that spares open files keeps the sessions sound. -/
theorem SessionsSound.ssStep
    {ss : StorageServer}
    (sound : SessionsSound ss)
    {event : SsEvent}
    (spares : SparesOpenFiles ss event) :
    SessionsSound (DistributedDocs.ssStep ss event) := by
  obtain ⟨now, command⟩ := event
  cases command with
  | writeLock fd msg =>
      exact sound.step_writeLock now fd msg
  | writeData fd msg =>
      exact sound.step_writeData now fd msg
  | etirw fd =>
      exact sound.step_etirw spares
  | disconnected fd =>
      exact sound.step_of_fewer_sessions rfl rfl
        (ssDetachSession_sublist _ fd)
  | _ =>
      exact sound.step_of_keepsSessions spares
        (keepsSessions_of_changesSessions _ rfl)

/-- What the scanner finds at a session's index in the present content. -/
def currentBounds
    (ss : StorageServer)
    (s : WriteSession) : Option (Nat × Nat) := do
  let rec ← recordAt ss.files s.file
  let bytes ← ss.disk.bytesAt rec.filepath
  ssGetSentenceBounds (cString bytes) s.sentenceIndex

/--
Every session has the range of its sentence in the present content; sessions
of one file share neither sentence nor bytes, and no client has two sessions.
-/
structure SessionsCurrent (ss : StorageServer) : Prop where
  bounds :
    ∀ s ∈ ss.sessions,
      currentBounds ss s = some (s.sentenceStart, s.sentenceEnd)
  apart :
    ss.sessions.Pairwise fun s t =>
      s.file = t.file →
        s.sentenceIndex ≠ t.sentenceIndex ∧
          (s.sentenceEnd ≤ t.sentenceStart ∨
            t.sentenceEnd ≤ s.sentenceStart)
  clients_nodup : (ss.sessions.map WriteSession.clientFd).Nodup

theorem SessionsSound.current
    {ss : StorageServer}
    (sound : SessionsSound ss) :
    SessionsCurrent ss where
  bounds s member := by
    obtain ⟨rec, present, same, reached, bytes, stored, inPlace⟩ :=
      sound.recordAt_eq member
    have found :=
      inPlace.bounds s (mem_sessionsOf.mpr ⟨member, same.symm⟩)
    simpa [currentBounds, reached, stored, StorageServer.viewOf] using found
  apart := by
    have clients := List.pairwise_map.mp sound.clients_nodup
    refine clients.imp_of_mem ?_
    intro s t sMember tMember different sameFile
    obtain ⟨rec, _, same, bytes, _, inPlace⟩ := sound.in_place s sMember
    have sListed : s ∈ (ss.viewOf rec.address bytes).sessions :=
      mem_sessionsOf.mpr ⟨sMember, same.symm⟩
    have tListed : t ∈ (ss.viewOf rec.address bytes).sessions :=
      mem_sessionsOf.mpr ⟨tMember, sameFile.symm.trans same.symm⟩
    have notSame := inPlace.index_ne tListed sListed different
    refine ⟨notSame, ?_⟩
    rcases lt_or_gt_of_ne notSame with earlier | later
    · exact Or.inl (inPlace.apart sListed tListed earlier).1
    · exact Or.inr (inPlace.apart tListed sListed later).1
  clients_nodup := sound.clients_nodup

end DistributedDocs
