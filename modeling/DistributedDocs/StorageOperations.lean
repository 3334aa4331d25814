import DistributedDocs.AccessLists
import DistributedDocs.Checkpoints
import DistributedDocs.StorageControl
import DistributedDocs.StreamedWords

namespace DistributedDocs

/-!
# All operations of a storage server

Besides the events that change documents, `client_thread` and
`ns_control_loop` handle requests that at most describe one record anew: its
last access, or its access lists.
-/

/-! ## `LISTCHECKPOINTS` -/

/-- The messages `handle_client_listcheckpoints` sends. -/
def checkpointMessages (rec : FileRecord) : List (List CString) :=
  rec.checkpoints.map (fun ckpt => [str "OK_LIST_CHECKPOINT", ckpt.tag]) ++
    [[str "OK_LIST_CHECKPOINT_END"]]

/-- `handle_client_listcheckpoints`, from the record on. -/
def listCheckpointsOf
    (now : Int)
    (fd : Nat)
    (username : CString)
    (rec : FileRecord) : Handler Unit := do
  ensure (ssCheckReadAccess rec username)
    (refuse errPermissionDenied "No read access")
  (checkpointMessages rec).forM (send (.client fd))
  ssTouchFileMetadata now rec (some username) false

/-- `handle_client_listcheckpoints` -/
def handleClientListcheckpoints
    (now : Int)
    (fd : Nat)
    (msg : List CString) : Handler Unit := do
  match msg with
  | _ :: username :: filename :: _ =>
      let some rec := ssFindFile (← get).files filename
        | refuse errFileNotFound "File not found"
      listCheckpointsOf now fd username rec
  | _ =>
      refuse errInvalidRequest "Missing fields in REQ_LIST_CHECKPOINTS"

/-! ## The operations -/

/-- A request that leaves all documents as they are. -/
inductive StorageRequest where
  | read (fd : Nat) (msg : List CString)
  | stream (fd : Nat) (msg : List CString)
  | viewCheckpoint (fd : Nat) (msg : List CString)
  | listCheckpoints (fd : Nat) (msg : List CString)
  | addAccess (msg : List CString)
  | remAccess (msg : List CString)
  | getStats (msg : List CString)
  | getContent (msg : List CString)

/-- The dispatch of `client_thread` and `ns_control_loop`. -/
def StorageRequest.handler (now : Int) : StorageRequest → Handler Unit
  | read fd msg => handleClientRead now fd msg
  | stream fd msg => handleClientStream now fd msg
  | viewCheckpoint fd msg => handleClientViewcheckpoint now fd msg
  | listCheckpoints fd msg => handleClientListcheckpoints now fd msg
  | addAccess msg => nsAddAccess msg
  | remAccess msg => nsRemAccess msg
  | getStats msg => nsGetStats msg
  | getContent msg => nsGetContent msg

/-- Who is told when the request is refused. -/
def StorageRequest.sender : StorageRequest → Peer
  | read fd _ => .client fd
  | stream fd _ => .client fd
  | viewCheckpoint fd _ => .client fd
  | listCheckpoints fd _ => .client fd
  | addAccess _ => .nameServer
  | remAccess _ => .nameServer
  | getStats _ => .nameServer
  | getContent _ => .nameServer

/-- Whatever the server is asked to do. -/
inductive StorageOperation where
  | event (event : SsEvent)
  | request (now : Int) (request : StorageRequest)

/-- Handle one operation; a refusal is answered with an error message. -/
def ssOperate (ss : StorageServer) : StorageOperation → StorageServer
  | .event event => ssStep ss event
  | .request now request =>
      match request.handler now ss with
      | .ok _ after =>
          after
      | .error refusal after =>
          { after with
            sent := after.sent ++ [⟨request.sender, refusal.fields⟩] }

/-- The user a request is about. -/
def StorageRequest.user : StorageRequest → Option CString
  | read _ (_ :: username :: _) => some username
  | stream _ (_ :: username :: _) => some username
  | viewCheckpoint _ (_ :: username :: _) => some username
  | listCheckpoints _ (_ :: username :: _) => some username
  | addAccess (_ :: _ :: username :: _) => some username
  | remAccess (_ :: _ :: username :: _) => some username
  | _ => none

/-- The server after one record and its sidecar have been written. -/
def StorageServer.redescribed
    (ss : StorageServer)
    (changed : FileRecord)
    (sent : List Message) : StorageServer :=
  { ss with
    files := storeRecord changed ss.files
    disk :=
      ss.disk.set changed.metapath
        (some (rawBytes (metadataText changed)))
    sent := sent }

/-- The record with other access lists. -/
def FileRecord.withLists
    (rec : FileRecord)
    (readUsers writeUsers : List CString) : FileRecord :=
  { rec with
    readUsers := readUsers
    writeUsers := writeUsers }

/-- What a request does on a disk whose operations succeed. -/
inductive StorageOutcome
    (ss : StorageServer)
    (now : Int)
    (request : StorageRequest)
    (after : StorageServer) : Prop
  | same
      (sent : List Message)
      (ends : after = { ss with sent := sent })
  | touched
      {rec : FileRecord}
      {username : CString}
      (asked : request.user = some username)
      (present : rec ∈ ss.files)
      (sent : List Message)
      (ends :
        after = ss.redescribed (rec.touched now (some username) false) sent)
  | granted
      {type filename username permToken : CString}
      {rest : List CString}
      {rec : FileRecord}
      {addition : AclAddition}
      (isGrant :
        request =
          .addAccess (type :: filename :: username :: permToken :: rest))
      (found : ssFindFile ss.files filename = some rec)
      (added :
        addToLists rec username (asksFor 'r' permToken)
          (asksFor 'w' permToken) = addition)
      (done : addition.done = true)
      (sent : List Message)
      (ends :
        after =
          ss.redescribed
            (rec.withLists addition.readUsers addition.writeUsers) sent)
  | revoked
      {rec : FileRecord}
      {username : CString}
      (asked : request.user = some username)
      (present : rec ∈ ss.files)
      (sent : List Message)
      (ends :
        after =
          ss.redescribed
            (rec.withLists (ssAclRemove rec.readUsers username).2
              (ssAclRemove rec.writeUsers username).2)
            sent)

/-! ## Every request ends in one of these ways -/

/-- Storing a record where it is already changes nothing. -/
theorem storeRecord_self
    {files : List FileRecord}
    (addresses : (files.map FileRecord.address).Nodup)
    {rec : FileRecord}
    (present : rec ∈ files) :
    storeRecord rec files = files := by
  have unchanged :
      ∀ node ∈ files,
        (if node.address = rec.address then rec else node) = node := by
    intro node listed
    split
    · next same => exact eq_of_address addresses present listed same.symm
    · rfl
  exact (List.map_congr_left unchanged).trans (List.map_id _)

theorem forM_send_apply
    (receiver : Peer)
    (messages : List (List CString))
    (ss : StorageServer) :
    messages.forM (send receiver) ss =
      .ok ()
        { ss with
          sent := ss.sent ++ messages.map (Message.mk receiver) } := by
  induction messages generalizing ss with
  | nil =>
      simp
  | cons fields rest inductionHypothesis =>
      simp only [List.forM_eq_forM, List.forM_cons] at inductionHypothesis ⊢
      rw [bind_apply, send_apply]
      simp only [inductionHypothesis, List.map_cons, List.append_assoc,
        List.singleton_append]

theorem ssOperate_request_eq
    (ss : StorageServer)
    (now : Int)
    (request : StorageRequest) :
    ∃ sent,
      ssOperate ss (.request now request) =
        { finalState (request.handler now ss) with sent := sent } := by
  simp only [ssOperate]
  cases request.handler now ss with
  | ok value after =>
      exact ⟨after.sent, rfl⟩
  | error refusal after =>
      exact ⟨_, rfl⟩

namespace StorageOutcome

variable
  {ss after : StorageServer}
  {now : Int}
  {request : StorageRequest}

theorem with_sent
    (outcome : StorageOutcome ss now request after)
    (sent : List Message) :
    StorageOutcome ss now request { after with sent := sent } := by
  cases outcome with
  | same earlier ends =>
      exact .same sent (by rw [ends])
  | touched asked present earlier ends =>
      exact .touched asked present sent (by rw [ends]; rfl)
  | granted isGrant found added done earlier ends =>
      exact .granted isGrant found added done sent (by rw [ends]; rfl)
  | revoked asked present earlier ends =>
      exact .revoked asked present sent (by rw [ends]; rfl)

/-- A handler that has changed nothing. -/
theorem unchanged : StorageOutcome ss now request ss :=
  .same ss.sent rfl

section Touching

variable
  (undisturbed : ss.disk.outcomes = [])
  {username : CString}
  (asked : request.user = some username)
  {rec : FileRecord}
  (present : rec ∈ ss.files)

include undisturbed asked present

theorem of_touch (sent : List Message) :
    StorageOutcome ss now request
      (finalState
        (ssTouchFileMetadata now rec (some username) false
          { ss with sent := sent })) := by
  have touched :=
    @ssTouchFileMetadata_undisturbed { ss with sent := sent } undisturbed now
      rec (some username) false
  rw [touched]
  exact .touched asked present sent rfl

theorem readRecord (fd : Nat) :
    StorageOutcome ss now request
      (finalState (DistributedDocs.readRecord now fd username rec ss)) := by
  simp only [DistributedDocs.readRecord, bind_apply, ensure_apply]
  cases allowed : ssCheckReadAccess rec username with
  | false =>
      exact unchanged
  | true =>
      simp only [↓reduceIte, ssReadFileContent_undisturbed undisturbed]
      cases stored : ss.disk.bytesAt rec.filepath with
      | none =>
          exact unchanged
      | some bytes =>
          simp only [Option.map_some, bind_apply, forM_send_apply]
          exact of_touch undisturbed asked present _

theorem streamRecord (fd : Nat) :
    StorageOutcome ss now request
      (finalState (DistributedDocs.streamRecord now fd username rec ss)) := by
  simp only [DistributedDocs.streamRecord, bind_apply, ensure_apply]
  cases allowed : ssCheckReadAccess rec username with
  | false =>
      exact unchanged
  | true =>
      simp only [↓reduceIte, ssReadFileContent_undisturbed undisturbed]
      cases stored : ss.disk.bytesAt rec.filepath with
      | none =>
          exact unchanged
      | some bytes =>
          simp only [Option.map_some, bind_apply, send_apply, sendWords_apply]
          exact of_touch undisturbed asked present _

theorem listCheckpointsOf (fd : Nat) :
    StorageOutcome ss now request
      (finalState
        (DistributedDocs.listCheckpointsOf now fd username rec ss)) := by
  simp only [DistributedDocs.listCheckpointsOf, bind_apply, ensure_apply]
  cases allowed : ssCheckReadAccess rec username with
  | false =>
      exact unchanged
  | true =>
      simp only [↓reduceIte, forM_send_apply]
      exact of_touch undisturbed asked present _

theorem viewCheckpointRecord (fd : Nat) (tag : CString) :
    StorageOutcome ss now request
      (finalState
        (DistributedDocs.viewCheckpointRecord now fd username tag rec
          ss)) := by
  simp only [DistributedDocs.viewCheckpointRecord, bind_apply, ensure_apply]
  cases allowed : ssCheckReadAccess rec username with
  | false =>
      exact unchanged
  | true =>
      simp only [↓reduceIte]
      cases found : ssFindCheckpoint rec tag with
      | none =>
          exact unchanged
      | some ckpt =>
          simp only [bind_apply, ssFileExists, get_apply, pure_apply,
            ensure_apply]
          cases stored : ss.disk.bytesAt ckpt.filepath with
          | none =>
              exact unchanged
          | some bytes =>
              simp only [Option.isSome_some, ↓reduceIte, bind_apply,
                ssReadFileContent_undisturbed undisturbed, stored,
                Option.map_some, forM_send_apply]
              exact of_touch undisturbed asked present _

end Touching

end StorageOutcome

/-! ## Access lists -/

/-- What the two attempts to add a user have made of the lists. -/
structure AclAddition.Sound
    (rec : FileRecord)
    (username : CString)
    (addition : AclAddition) : Prop where
  read_kept : addition.addedRead = false → addition.readUsers = rec.readUsers
  read_added :
    addition.addedRead = true →
      ssAclContains rec.readUsers username = false ∧
        rec.readUsers.length < ssMaxUsersPerFile ∧
          addition.readUsers = rec.readUsers ++ [username]
  write_kept :
    addition.addedWrite = false → addition.writeUsers = rec.writeUsers
  write_added :
    addition.addedWrite = true →
      addition.done = true ∧
        rec.writeUsers.length < ssMaxUsersPerFile ∧
          addition.writeUsers = rec.writeUsers ++ [username]

theorem ssAclAdd_of_absent
    {entries : List CString}
    {username : CString}
    (short : username.length < maxUsernameLength)
    (absent : ssAclContains entries username = false) :
    ssAclAdd entries username =
      if ssMaxUsersPerFile ≤ entries.length then none
      else some (true, entries ++ [username]) := by
  simp [ssAclAdd, absent, safeStrcpy_of_short short]

/-- The second attempt, on the lists the first one has left. -/
theorem addToLists_sound
    (rec : FileRecord)
    {username : CString}
    (short : username.length < maxUsernameLength)
    (wantRead wantWrite : Bool) :
    (addToLists rec username wantRead wantWrite).Sound rec username := by
  have absentOf :
      ∀ {want : Bool} {entries : List CString},
        (want && !ssAclContains entries username) = true →
          ssAclContains entries username = false := by
    intro want entries asked
    simpa using (Bool.and_eq_true_iff.mp asked).2
  cases reads : wantRead && !ssAclContains rec.readUsers username with
  | false =>
      cases writes : wantWrite && !ssAclContains rec.writeUsers username with
      | false =>
          simp only [addToLists, reads, writes, Bool.and_false,
            Bool.false_eq_true, ↓reduceIte]
          exact ⟨fun _ => rfl, by simp, fun _ => rfl, by simp⟩
      | true =>
          by_cases full : ssMaxUsersPerFile ≤ rec.writeUsers.length
          · simp only [addToLists, reads, writes, Bool.and_true,
              Bool.false_eq_true, ↓reduceIte,
              ssAclAdd_of_absent short (absentOf writes), full]
            exact ⟨fun _ => rfl, by simp, fun _ => rfl, by simp⟩
          · simp only [addToLists, reads, writes, Bool.and_true,
              Bool.false_eq_true, ↓reduceIte,
              ssAclAdd_of_absent short (absentOf writes), full]
            exact ⟨fun _ => rfl, by simp, by simp,
              fun _ => ⟨rfl, Nat.lt_of_not_le full, rfl⟩⟩
  | true =>
      have newReader := absentOf reads
      by_cases noRoom : ssMaxUsersPerFile ≤ rec.readUsers.length
      · simp only [addToLists, reads, Bool.false_and, Bool.false_eq_true,
          ↓reduceIte, ssAclAdd_of_absent short newReader, noRoom]
        exact ⟨fun _ => rfl, by simp, fun _ => rfl, by simp⟩
      · have room := Nat.lt_of_not_le noRoom
        cases writes :
            wantWrite && !ssAclContains rec.writeUsers username with
        | false =>
            simp only [addToLists, reads, writes, Bool.and_false,
              Bool.false_eq_true, ↓reduceIte,
              ssAclAdd_of_absent short newReader, noRoom]
            exact ⟨by simp, fun _ => ⟨newReader, room, rfl⟩, fun _ => rfl,
              by simp⟩
        | true =>
            by_cases full : ssMaxUsersPerFile ≤ rec.writeUsers.length
            · simp only [addToLists, reads, writes, Bool.and_true,
                ↓reduceIte, ssAclAdd_of_absent short newReader, noRoom,
                ssAclAdd_of_absent short (absentOf writes), full]
              exact ⟨by simp, fun _ => ⟨newReader, room, rfl⟩, fun _ => rfl,
                by simp⟩
            · simp only [addToLists, reads, writes, Bool.and_true,
                ↓reduceIte, ssAclAdd_of_absent short newReader, noRoom,
                ssAclAdd_of_absent short (absentOf writes), full]
              exact ⟨by simp, fun _ => ⟨newReader, room, rfl⟩, by simp,
                fun _ => ⟨rfl, Nat.lt_of_not_le full, rfl⟩⟩

namespace StorageOutcome

section Listing

variable
  {ss : StorageServer}
  {now : Int}
  {request : StorageRequest}
  (placed : RecordsPlaced ss)
  (undisturbed : ss.disk.outcomes = [])
  {rec : FileRecord}
  (present : rec ∈ ss.files)

include placed undisturbed present

omit undisturbed in
/-- A record that is stored as it was. -/
theorem of_restored
    {changed : FileRecord}
    (restored : changed = rec)
    (sent : List Message) :
    StorageOutcome ss now request
      { ss with files := storeRecord changed ss.files, sent := sent } := by
  rw [restored, storeRecord_self placed.addresses_nodup present]
  exact .same sent rfl

theorem addAccessTo
    {type filename username permToken : CString}
    {rest : List CString}
    (isGrant :
      request =
        .addAccess (type :: filename :: username :: permToken :: rest))
    (found : ssFindFile ss.files filename = some rec)
    (short : username.length < maxUsernameLength) :
    StorageOutcome ss now request
      (finalState
        (DistributedDocs.addAccessTo filename username
          (asksFor 'r' permToken) (asksFor 'w' permToken) rec ss)) := by
  have sound :=
    addToLists_sound rec short (asksFor 'r' permToken) (asksFor 'w' permToken)
  generalize addedEq :
    addToLists rec username (asksFor 'r' permToken) (asksFor 'w' permToken) =
      addition at sound
  simp only [DistributedDocs.addAccessTo, addedEq, bind_apply, putRecord,
    modify_apply]
  cases done : addition.done with
  | false =>
      have notWritten : addition.addedWrite = false := by
        cases written : addition.addedWrite with
        | false =>
            rfl
        | true =>
            exact absurd (sound.write_added written).1 (by simp [done])
      have readers :
          (if addition.addedRead then
            (ssAclRemove addition.readUsers username).2
          else addition.readUsers) = rec.readUsers := by
        cases read : addition.addedRead with
        | false =>
            exact sound.read_kept read
        | true =>
            obtain ⟨absent, _, users⟩ := sound.read_added read
            rw [if_pos rfl, users]
            exact fileAclRemove_added short absent
      simp only [Bool.false_and, Bool.false_eq_true, ↓reduceIte, pure_apply,
        bind_apply, modify_apply, notWritten, readers,
        sound.write_kept notWritten, refuse_apply, finalState_error]
      rw [storeRecord_storeRecord (by exact rfl)]
      exact of_restored placed present rfl _
  | true =>
      cases added : addition.addedRead || addition.addedWrite with
      | false =>
          obtain ⟨notRead, notWritten⟩ := Bool.or_eq_false_iff.mp added
          simp only [Bool.true_and, Bool.false_eq_true, ↓reduceIte,
            sound.read_kept notRead, sound.write_kept notWritten]
          exact of_restored placed present rfl _
      | true =>
          simp only [Bool.true_and, ↓reduceIte, ssWriteMetadata, bind_apply,
            onDisk_apply, Disk.write_undisturbed undisturbed, pure_apply,
            ne_eq, reduceCtorEq, not_false_eq_true, decide_true, send_apply,
            finalState_ok]
          exact .granted isGrant found addedEq done _ rfl

theorem removeAccessFrom
    {username : CString}
    (asked : request.user = some username)
    (filename : CString) :
    StorageOutcome ss now request
      (finalState
        (DistributedDocs.removeAccessFrom filename username rec ss)) := by
  simp only [DistributedDocs.removeAccessFrom, bind_apply, putRecord,
    modify_apply, ensure_apply]
  cases removed :
      (ssAclRemove rec.readUsers username).1 ||
        (ssAclRemove rec.writeUsers username).1 with
  | false =>
      obtain ⟨notReader, notWriter⟩ := Bool.or_eq_false_iff.mp removed
      have kept :
          ∀ {users : List CString}, (ssAclRemove users username).1 = false →
            (ssAclRemove users username).2 = users := by
        intro users notRemoved
        apply fileAclRemove_of_absent
        rw [← fileAclRemove_fst]
        exact notRemoved
      simp only [Bool.false_eq_true, ↓reduceIte, refuse_apply,
        finalState_error, kept notReader, kept notWriter]
      exact of_restored placed present rfl _
  | true =>
      simp only [↓reduceIte, ssWriteMetadata, bind_apply, onDisk_apply,
        Disk.write_undisturbed undisturbed, pure_apply, ne_eq, reduceCtorEq,
        not_false_eq_true, decide_true, send_apply, finalState_ok]
      exact .revoked asked present _ rfl

end Listing

section Reading

variable
  {ss : StorageServer}
  {now : Int}
  {request : StorageRequest}
  (undisturbed : ss.disk.outcomes = [])

include undisturbed

theorem nsGetStats (msg : List CString) :
    StorageOutcome ss now request
      (finalState (DistributedDocs.nsGetStats msg ss)) := by
  rcases msg with _ | ⟨type, _ | ⟨filename, rest⟩⟩
  iterate 2 exact unchanged
  simp only [DistributedDocs.nsGetStats, bind_apply, get_apply]
  cases ssFindFile ss.files filename with
  | none =>
      exact unchanged
  | some rec =>
      simp only [getFileSize, bind_apply, get_apply]
      cases stored : ss.disk.bytesAt rec.filepath with
      | none =>
          simp only [pure_apply, ssReadFileContent_undisturbed undisturbed,
            stored, Option.map_none, send_apply, finalState_ok]
          exact .same _ rfl
      | some bytes =>
          simp only [pure_apply, ssReadFileContent_undisturbed undisturbed,
            stored, Option.map_some, send_apply, finalState_ok]
          exact .same _ rfl

theorem nsGetContent (msg : List CString) :
    StorageOutcome ss now request
      (finalState (DistributedDocs.nsGetContent msg ss)) := by
  rcases msg with _ | ⟨type, _ | ⟨filename, rest⟩⟩
  iterate 2 exact unchanged
  simp only [DistributedDocs.nsGetContent, bind_apply, get_apply]
  cases ssFindFile ss.files filename with
  | none =>
      exact unchanged
  | some rec =>
      simp only [bind_apply, ssReadFileContent_undisturbed undisturbed]
      cases ss.disk.bytesAt rec.filepath with
      | none =>
          exact unchanged
      | some bytes =>
          simp only [Option.map_some, send_apply, finalState_ok]
          exact .same _ rfl

end Reading

end StorageOutcome

/-- What every request does on a disk whose operations succeed. -/
theorem storageOutcome
    {ss : StorageServer}
    (placed : RecordsPlaced ss)
    (undisturbed : ss.disk.outcomes = [])
    (now : Int)
    (request : StorageRequest)
    (short : ∀ user ∈ request.user, user.length < maxUsernameLength) :
    StorageOutcome ss now request (ssOperate ss (.request now request)) := by
  obtain ⟨sent, operated⟩ := ssOperate_request_eq ss now request
  rw [operated]
  apply StorageOutcome.with_sent
  cases request with
  | read fd msg =>
      rcases msg with _ | ⟨type, _ | ⟨username, _ | ⟨filename, rest⟩⟩⟩
      iterate 3 exact .unchanged
      simp only [StorageRequest.handler, handleClientRead, bind_apply,
        get_apply]
      cases found : ssFindFile ss.files filename with
      | none =>
          exact .unchanged
      | some rec =>
          exact .readRecord undisturbed rfl (ssFindFile_filename found).1 fd
  | stream fd msg =>
      rcases msg with _ | ⟨type, _ | ⟨username, _ | ⟨filename, rest⟩⟩⟩
      iterate 3 exact .unchanged
      simp only [StorageRequest.handler, handleClientStream, bind_apply,
        get_apply]
      cases found : ssFindFile ss.files filename with
      | none =>
          exact .unchanged
      | some rec =>
          exact .streamRecord undisturbed rfl (ssFindFile_filename found).1 fd
  | viewCheckpoint fd msg =>
      rcases msg with
        _ | ⟨type, _ | ⟨username, _ | ⟨filename, _ | ⟨tag, rest⟩⟩⟩⟩
      iterate 4 exact .unchanged
      simp only [StorageRequest.handler, handleClientViewcheckpoint,
        bind_apply, ensure_apply, get_apply]
      by_cases empty : tagCopy tag = []
      · simp only [empty, ne_eq, not_true_eq_false, decide_false,
          Bool.false_eq_true, ↓reduceIte, refuse_apply]
        exact .unchanged
      · simp only [empty, ne_eq, not_false_eq_true, decide_true, ↓reduceIte]
        cases found : ssFindFile ss.files filename with
        | none =>
            exact .unchanged
        | some rec =>
            exact .viewCheckpointRecord undisturbed rfl
              (ssFindFile_filename found).1 fd _
  | listCheckpoints fd msg =>
      rcases msg with _ | ⟨type, _ | ⟨username, _ | ⟨filename, rest⟩⟩⟩
      iterate 3 exact .unchanged
      simp only [StorageRequest.handler, handleClientListcheckpoints,
        bind_apply, get_apply]
      cases found : ssFindFile ss.files filename with
      | none =>
          exact .unchanged
      | some rec =>
          exact .listCheckpointsOf undisturbed rfl
            (ssFindFile_filename found).1 fd
  | addAccess msg =>
      rcases msg with
        _ | ⟨type, _ | ⟨filename, _ | ⟨username, _ | ⟨permToken, rest⟩⟩⟩⟩
      iterate 4 exact .unchanged
      simp only [StorageRequest.handler, nsAddAccess, bind_apply, get_apply]
      cases found : ssFindFile ss.files filename with
      | none =>
          exact .unchanged
      | some rec =>
          simp only [bind_apply, ensure_apply]
          cases asked : asksFor 'r' permToken || asksFor 'w' permToken with
          | false =>
              exact .unchanged
          | true =>
              exact .addAccessTo placed undisturbed
                (ssFindFile_filename found).1 rfl found (short _ rfl)
  | remAccess msg =>
      rcases msg with _ | ⟨type, _ | ⟨filename, _ | ⟨username, rest⟩⟩⟩
      iterate 3 exact .unchanged
      simp only [StorageRequest.handler, nsRemAccess, bind_apply, get_apply]
      cases found : ssFindFile ss.files filename with
      | none =>
          exact .unchanged
      | some rec =>
          exact .removeAccessFrom placed undisturbed
            (ssFindFile_filename found).1 rfl filename
  | getStats msg =>
      exact .nsGetStats undisturbed msg
  | getContent msg =>
      exact .nsGetContent undisturbed msg

end DistributedDocs
