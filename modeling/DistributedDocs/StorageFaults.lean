import DistributedDocs.GuardedRun
import DistributedDocs.StorageOutcomes

namespace DistributedDocs

/-!
# Content operations that fail

`ETIRW`, `UNDO` and `REVERT` overwrite the content and the undo snapshot of a
file in place, one after the other.  Which faults of the disk leave both as
they were, when the command is answered with an error, and which do not.
-/

/-- The requests that overwrite the content of a file. -/
inductive ContentRequest where
  | etirw (fd : Nat)
  | undo (fd : Nat) (msg : List CString)
  | revert (fd : Nat) (msg : List CString)

/-- The request as the server receives it. -/
def ContentRequest.command : ContentRequest → SsCommand
  | .etirw fd => .etirw fd
  | .undo fd msg => .undo fd msg
  | .revert fd msg => .revert fd msg

/--
The content and the undo snapshot of every file, its record with the undo flag,
and the sessions are as before.
-/
structure FilesUntouched (before after : StorageServer) : Prop where
  files_eq : after.files = before.files
  sessions_eq : after.sessions = before.sessions
  content_eq :
    ∀ rec ∈ before.files,
      after.disk.bytesAt rec.filepath = before.disk.bytesAt rec.filepath
  undo_eq :
    ∀ rec ∈ before.files,
      after.disk.bytesAt rec.undopath = before.disk.bytesAt rec.undopath

/-- If the program is left with an error, nothing has been touched. -/
def FailureUntouched
    (before : StorageServer)
    (result : EStateM.Result Refusal StorageServer Unit) : Prop :=
  ∀ refusal after, result = .error refusal after → FilesUntouched before after

/-! ## Faults that are spared -/

/--
What `handle_client_etirw` writes: the undo snapshot cannot be written and
stays, or it can; then the content can be written too, or it stays and the
snapshot was there already.
-/
def commitSpares
    (session : WriteSession)
    (rec : FileRecord)
    (disk : Disk CString) : Bool :=
  match disk.read rec.filepath with
  | (none, _) => true
  | (some bytes, ready) =>
      let snapshot := cString bytes
      let keep := Disk.writeAll rec.undopath (rawBytes snapshot)
      let put :=
        Disk.writeAll rec.filepath
          (rawBytes
            (splice snapshot session.sentenceStart session.sentenceEnd
              session.sentenceWorking))
      if invalidSentenceBounds snapshot session.sentenceStart
          session.sentenceEnd then
        true
      else if (keep ready).1 then
        (put (keep ready).2).1 ||
          (decide (ready.bytesAt rec.undopath = some (rawBytes snapshot)) &&
            (keep ready).2.spares rec.filepath put)
      else
        ready.spares rec.undopath keep

/-- What `handle_client_undo` writes is the content alone. -/
def undoSpares (rec : FileRecord) (disk : Disk CString) : Bool :=
  if rec.undoAvailable = 0 ∨ disk.bytesAt rec.undopath = none then
    true
  else
    match disk.read rec.undopath with
    | (none, _) => true
    | (some bytes, ready) =>
        ready.spares rec.filepath
          (Disk.writeAll rec.filepath (rawBytes (cString bytes)))

/--
What `handle_client_revert` copies: the undo snapshot cannot be copied and
stays, or it can; then the checkpoint can be copied too, or the snapshot was
there already, and the content is copied back or was never touched.
-/
def revertSpares
    (tag : CString)
    (rec : FileRecord)
    (disk : Disk CString) : Bool :=
  match ssFindCheckpoint rec tag with
  | none => true
  | some ckpt =>
      let keep := Disk.copy rec.filepath rec.undopath
      let put := Disk.copy ckpt.filepath rec.filepath
      let putBack := Disk.copy rec.undopath rec.filepath
      if disk.bytesAt ckpt.filepath = none then
        true
      else if (keep disk).1 then
        (put (keep disk).2).1 ||
          (decide
              (disk.bytesAt rec.undopath = disk.bytesAt rec.filepath) &&
            ((putBack (put (keep disk).2).2).1 ||
              ((keep disk).2.spares rec.filepath put &&
                (put (keep disk).2).2.spares rec.filepath putBack)))
      else
        disk.spares rec.undopath keep

/-- The faults to come leave the files alone, or the request succeeds. -/
def faultsSpare (ss : StorageServer) : ContentRequest → Bool
  | .etirw fd =>
      match ssFindSession ss.sessions fd with
      | none => true
      | some session =>
          match recordAt ss.files session.file with
          | none => true
          | some rec => commitSpares session rec ss.disk
  | .undo _ (_ :: username :: filename :: _) =>
      match admittedRecord ss username filename with
      | none => true
      | some rec => undoSpares rec ss.disk
  | .revert _ (_ :: username :: filename :: tag :: _) =>
      if tagCopy tag = [] then
        true
      else
        match admittedRecord ss username filename with
        | none => true
        | some rec => revertSpares (tagCopy tag) rec ss.disk
  | _ => true

/-! ## Leaving with an error -/

theorem FilesUntouched.refl (ss : StorageServer) : FilesUntouched ss ss :=
  ⟨rfl, rfl, fun _ _ => rfl, fun _ _ => rfl⟩

theorem failureUntouched_error_iff
    {before after : StorageServer}
    {refusal : Refusal} :
    FailureUntouched before (.error refusal after) ↔
      FilesUntouched before after :=
  ⟨fun untouched => untouched refusal after rfl, fun untouched _ _ same => by
    cases same
    exact untouched⟩

theorem FailureUntouched.of_ok (before after : StorageServer) :
    FailureUntouched before (.ok () after) :=
  nofun

theorem FailureUntouched.of_refused (before : StorageServer) (refusal : Refusal) :
    FailureUntouched before (.error refusal before) :=
  failureUntouched_error_iff.mpr (.refl before)

theorem FailureUntouched.of_completes
    {program : Handler Unit}
    (completes : Completes program)
    (before start : StorageServer) :
    FailureUntouched before (program start) := by
  obtain ⟨value, after, outcome⟩ := completes start
  rw [outcome]
  exact .of_ok before after

/-- Only the two files of one record have to be compared. -/
theorem filesUntouched_onDisk_iff
    {ss : StorageServer}
    {rec : FileRecord}
    (present : rec ∈ ss.files)
    {disk : Disk CString}
    (agrees : Disk.AgreesOutside [rec.filepath, rec.undopath] ss.disk disk) :
    FilesUntouched ss { ss with disk := disk } ↔
      disk.bytesAt rec.filepath = ss.disk.bytesAt rec.filepath ∧
        disk.bytesAt rec.undopath = ss.disk.bytesAt rec.undopath := by
  constructor
  · intro untouched
    exact ⟨untouched.content_eq rec present, untouched.undo_eq rec present⟩
  · rintro ⟨contentSame, undoSame⟩
    have everywhere : ∀ path, disk.bytesAt path = ss.disk.bytesAt path := by
      intro path
      by_cases isContent : path = rec.filepath
      · rw [isContent, contentSame]
      · by_cases isUndo : path = rec.undopath
        · rw [isUndo, undoSame]
        · exact agrees.bytesAt_eq path (by simp [isContent, isUndo])
    exact ⟨rfl, rfl, fun _ _ => everywhere _, fun _ _ => everywhere _⟩

/-! ## The rest of a request succeeds -/

theorem completes_ssReadFileContent (path : CString) :
    Completes (ssReadFileContent path) :=
  .bind (.modifyGet _) fun _ => .pure _

theorem completes_ssTouchFileMetadata
    (now : Int)
    (rec : FileRecord)
    (username : Option CString)
    (updateModified : Bool) :
    Completes (ssTouchFileMetadata now rec username updateModified) :=
  .bind (.modify _) fun _ =>
    .bind (.bind (.modifyGet _) fun _ => .pure _) fun _ => .pure _

theorem completes_getFileSize (path : CString) :
    Completes (getFileSize path) := by
  refine .bind .get fun ss => ?_
  split
  · exact .pure _
  · exact .pure _

theorem completes_ssSyncMetadataToNs (rec : FileRecord) :
    Completes (ssSyncMetadataToNs rec) :=
  .bind (completes_getFileSize _) fun _ =>
    .bind (completes_ssReadFileContent _) fun _ => .modify _

/-! ## One theorem for each request -/

theorem ssReadFileContent_apply (path : CString) (ss : StorageServer) :
    ssReadFileContent path ss =
      .ok ((ss.disk.read path).1.map cString)
        { ss with disk := (ss.disk.read path).2 } :=
  rfl

theorem ssWriteFileContent_apply (path data : CString) (ss : StorageServer) :
    ssWriteFileContent path data ss =
      .ok (ss.disk.writeAll path (rawBytes data)).1
        { ss with disk := (ss.disk.writeAll path (rawBytes data)).2 } :=
  rfl

theorem ssCopyFile_apply (srcPath destPath : CString) (ss : StorageServer) :
    ssCopyFile srcPath destPath ss =
      .ok (ss.disk.copy srcPath destPath).1
        { ss with disk := (ss.disk.copy srcPath destPath).2 } :=
  rfl

/-- First do what always returns. -/
theorem failureUntouched_bind_iff
    {α : Type}
    {program : Handler α}
    {next : α → Handler Unit}
    {before state middle : StorageServer}
    {value : α}
    (outcome : program state = .ok value middle) :
    FailureUntouched before ((program >>= next) state) ↔
      FailureUntouched before (next value middle) := by
  rw [bind_of_ok _ outcome]

/-- A check that fails ends the request. -/
theorem failureUntouched_ensure_iff
    {check : Bool}
    {code : Int}
    {text : String}
    {next : Unit → Handler Unit}
    {before state : StorageServer} :
    FailureUntouched before
        ((ensure check (refuse code text) >>= next) state) ↔
      if check then
        FailureUntouched before (next () state)
      else
        FilesUntouched before state := by
  cases check with
  | false => exact failureUntouched_error_iff
  | true => exact Iff.rfl

theorem ssFileExists_apply (path : CString) (ss : StorageServer) :
    ssFileExists path ss = .ok (ss.disk.bytesAt path).isSome ss :=
  rfl

section Requests

variable
  {ss : StorageServer}
  {rec : FileRecord}
  (present : rec ∈ ss.files)
  (apart : rec.undopath ≠ rec.filepath)

include present apart

/-- The undo snapshot cannot be kept. -/
theorem filesUntouched_keep_iff
    {ready : Disk CString}
    {keep : Disk CString → Bool × Disk CString}
    (looked : Disk.AgreesOutside [] ss.disk ready)
    (keptOnly : Disk.AgreesOutside [rec.undopath] ready (keep ready).2)
    (failed : (keep ready).1 = false) :
    FilesUntouched ss { ss with disk := (keep ready).2 } ↔
      ready.spares rec.undopath keep = true := by
  have contentKept :
      (keep ready).2.bytesAt rec.filepath = ss.disk.bytesAt rec.filepath :=
    (keptOnly.bytesAt_eq rec.filepath (by simpa using apart.symm)).trans
      (looked.bytesAt_eq rec.filepath (by simp))
  rw [Disk.spares_of_failed failed,
    looked.bytesAt_eq rec.undopath (by simp),
    filesUntouched_onDisk_iff present
      ((looked.mono (by simp)).trans (keptOnly.mono (by simp)))]
  exact ⟨And.right, fun undoSame => ⟨contentKept, undoSame⟩⟩

/-- With the undo snapshot kept, the content cannot be put in its place. -/
theorem filesUntouched_put_iff
    {kept : Disk CString}
    {put : Disk CString → Bool × Disk CString}
    (keptOnly : Disk.AgreesOutside [rec.undopath] ss.disk kept)
    (putOnly : Disk.AgreesOutside [rec.filepath] kept (put kept).2)
    (failed : (put kept).1 = false) :
    FilesUntouched ss { ss with disk := (put kept).2 } ↔
      kept.bytesAt rec.undopath = ss.disk.bytesAt rec.undopath ∧
        kept.spares rec.filepath put = true := by
  rw [Disk.spares_of_failed failed,
    keptOnly.bytesAt_eq rec.filepath (by simpa using apart.symm),
    ← putOnly.bytesAt_eq rec.undopath (by simpa using apart),
    filesUntouched_onDisk_iff present
      ((keptOnly.mono (by simp)).trans (putOnly.mono (by simp)))]
  exact and_comm

theorem failureUntouched_commitSession_iff
    (now : Int)
    (fd : Nat)
    (session : WriteSession) :
    FailureUntouched ss (commitSession now fd session rec ss) ↔
      commitSpares session rec ss.disk = true := by
  have looked := Disk.agreesOutside_read rec.filepath ss.disk
  unfold commitSpares commitSession
  refine (failureUntouched_bind_iff (ssReadFileContent_apply _ _)).trans ?_
  generalize ss.disk.read rec.filepath = outcome at looked ⊢
  obtain ⟨content, ready⟩ := outcome
  have same : ∀ path, ready.bytesAt path = ss.disk.bytesAt path :=
    fun path => looked.bytesAt_eq path (by simp)
  have readOnly :=
    (filesUntouched_onDisk_iff present (looked.mono (by simp))).mpr
      ⟨same rec.filepath, same rec.undopath⟩
  cases content with
  | none =>
      exact iff_of_true (failureUntouched_error_iff.mpr readOnly) rfl
  | some bytes =>
      refine failureUntouched_ensure_iff.trans ?_
      cases valid :
          invalidSentenceBounds (cString bytes) session.sentenceStart
            session.sentenceEnd with
      | true => exact iff_of_true readOnly (by simp [valid])
      | false =>
          simp only [valid, Bool.not_false, ↓reduceIte]
          refine
            (failureUntouched_bind_iff
              (ssWriteFileContent_apply _ _ _)).trans ?_
          refine failureUntouched_ensure_iff.trans ?_
          have keptOnly :=
            Disk.agreesOutside_writeAll rec.undopath
              (rawBytes (cString bytes)) ready
          cases keeps :
              (ready.writeAll rec.undopath (rawBytes (cString bytes))).1 with
          | false =>
              exact filesUntouched_keep_iff present apart looked keptOnly keeps
          | true =>
              refine
                (failureUntouched_bind_iff
                  (ssWriteFileContent_apply _ _ _)).trans ?_
              refine failureUntouched_ensure_iff.trans ?_
              have snapshot := Disk.bytesAt_writeAll keeps
              generalize
                (ready.writeAll rec.undopath (rawBytes (cString bytes))).2 =
                  kept at keptOnly snapshot ⊢
              generalize
                rawBytes
                    (splice (cString bytes) session.sentenceStart
                      session.sentenceEnd session.sentenceWorking) =
                  newBytes
              cases puts : (kept.writeAll rec.filepath newBytes).1 with
              | false =>
                  have changed :=
                    filesUntouched_put_iff present apart
                      ((looked.mono (by simp)).trans keptOnly)
                      (Disk.agreesOutside_writeAll rec.filepath newBytes kept)
                      puts
                  rw [snapshot, eq_comm, ← same] at changed
                  simpa [puts] using changed
              | true =>
                  refine iff_of_true ?_ (by simp)
                  refine .of_completes ?_ _ _
                  exact .bind (completes_ssTouchFileMetadata _ _ _ _) fun _ =>
                    .bind (.modify _) fun _ =>
                      .bind (.modify _) fun _ =>
                        .bind (.modify _) fun _ =>
                          completes_ssSyncMetadataToNs rec

theorem failureUntouched_undoRecord_iff
    (now : Int)
    (fd : Nat)
    (username : CString) :
    FailureUntouched ss (undoRecord now fd username rec ss) ↔
      undoSpares rec ss.disk = true := by
  unfold undoSpares
  split
  · next nothing =>
    obtain ⟨refusal, refused⟩ :=
      undoRecord_refused now fd username rec nothing
    rw [refused]
    exact iff_of_true (.of_refused ss refusal) rfl
  · next something =>
    rw [not_or] at something
    obtain ⟨available, isKept⟩ := something
    have exists_ : (ss.disk.bytesAt rec.undopath).isSome = true :=
      Option.isSome_iff_ne_none.mpr isKept
    unfold undoRecord
    refine (failureUntouched_bind_iff (ssFileExists_apply _ _)).trans ?_
    refine failureUntouched_ensure_iff.trans ?_
    rw [if_pos (by simp [available, exists_])]
    have looked := Disk.agreesOutside_read rec.undopath ss.disk
    refine (failureUntouched_bind_iff (ssReadFileContent_apply _ _)).trans ?_
    generalize ss.disk.read rec.undopath = outcome at looked ⊢
    obtain ⟨content, ready⟩ := outcome
    cases content with
    | none =>
        refine iff_of_true (failureUntouched_error_iff.mpr ?_) rfl
        exact (filesUntouched_onDisk_iff present (looked.mono (by simp))).mpr
          ⟨looked.bytesAt_eq _ (by simp), looked.bytesAt_eq _ (by simp)⟩
    | some bytes =>
        refine
          (failureUntouched_bind_iff
            (ssWriteFileContent_apply _ _ _)).trans ?_
        refine failureUntouched_ensure_iff.trans ?_
        cases puts :
            (ready.writeAll rec.filepath (rawBytes (cString bytes))).1 with
        | false =>
            have changed :=
              filesUntouched_put_iff present apart (looked.mono (by simp))
                (Disk.agreesOutside_writeAll rec.filepath
                  (rawBytes (cString bytes)) ready)
                puts
            exact changed.trans
              (and_iff_right (looked.bytesAt_eq _ (by simp)))
        | true =>
            refine iff_of_true ?_ (by simp [Disk.spares, puts])
            refine .of_completes ?_ _ _
            exact .bind (completes_ssTouchFileMetadata _ _ _ _) fun _ =>
              .modify _

/--
With the undo snapshot kept, the checkpoint cannot be put in its place, and the
content is copied back.
-/
theorem filesUntouched_putBack_iff
    {kept : Disk CString}
    {put : Disk CString → Bool × Disk CString}
    {bytes : RawBytes}
    (stored : ss.disk.bytesAt rec.filepath = some bytes)
    (keptOnly : Disk.AgreesOutside [rec.undopath] ss.disk kept)
    (snapshot : kept.bytesAt rec.undopath = some bytes)
    (putOnly : Disk.AgreesOutside [rec.filepath] kept (put kept).2)
    (failed : (put kept).1 = false) :
    let putBack := Disk.copy rec.undopath rec.filepath
    FilesUntouched ss { ss with disk := (putBack (put kept).2).2 } ↔
      ss.disk.bytesAt rec.undopath = ss.disk.bytesAt rec.filepath ∧
        ((putBack (put kept).2).1 = true ∨
          (kept.spares rec.filepath put = true ∧
            (put kept).2.spares rec.filepath putBack = true)) := by
  intro putBack
  have backOnly :=
    Disk.agreesOutside_copy rec.undopath rec.filepath (put kept).2
  have contentKept : kept.bytesAt rec.filepath = some bytes :=
    (keptOnly.bytesAt_eq rec.filepath (by simpa using apart.symm)).trans stored
  have undoPut : (put kept).2.bytesAt rec.undopath = some bytes :=
    (putOnly.bytesAt_eq rec.undopath (by simpa using apart)).trans snapshot
  have undoBack :
      (putBack (put kept).2).2.bytesAt rec.undopath = some bytes :=
    (backOnly.bytesAt_eq rec.undopath (by simpa using apart)).trans undoPut
  rw [filesUntouched_onDisk_iff present
      ((keptOnly.mono (by simp)).trans
        ((putOnly.mono (by simp)).trans (backOnly.mono (by simp)))),
    undoBack, stored, Disk.spares_of_failed failed, contentKept,
    and_comm, @eq_comm _ (some bytes)]
  refine and_congr_right' ?_
  cases backs : (putBack (put kept).2).1 with
  | true =>
      exact iff_of_true (Disk.bytesAt_copy_done apart undoPut backs)
        (Or.inl rfl)
  | false =>
      rw [Disk.spares_of_failed backs]
      simp only [Bool.false_eq_true, false_or]
      constructor
      · intro restored
        rcases Disk.bytesAt_copy_failed apart undoPut backs with
          unchanged | different
        · exact ⟨unchanged.symm.trans restored, unchanged⟩
        · exact absurd restored different
      · rintro ⟨contentPut, unchanged⟩
        exact unchanged.trans contentPut

theorem failureUntouched_revertRecord_iff
    (now : Int)
    (fd : Nat)
    (username tag : CString) :
    FailureUntouched ss (revertRecord now fd username tag rec ss) ↔
      revertSpares tag rec ss.disk = true := by
  unfold revertSpares revertRecord
  cases found : ssFindCheckpoint rec tag with
  | none => exact iff_of_true (.of_refused ss _) rfl
  | some ckpt =>
      refine (failureUntouched_bind_iff (ssFileExists_apply _ _)).trans ?_
      refine failureUntouched_ensure_iff.trans ?_
      by_cases missing : ss.disk.bytesAt ckpt.filepath = none
      · simp only [missing, Option.isSome_none, Bool.false_eq_true, ↓reduceIte]
        exact iff_of_true (.refl ss) trivial
      · have isThere : (ss.disk.bytesAt ckpt.filepath).isSome = true :=
          Option.isSome_iff_ne_none.mpr missing
        simp only [isThere, missing, ↓reduceIte]
        refine (failureUntouched_bind_iff (ssCopyFile_apply _ _ _)).trans ?_
        refine failureUntouched_ensure_iff.trans ?_
        have keptOnly :=
          Disk.agreesOutside_copy rec.filepath rec.undopath ss.disk
        cases keeps : (ss.disk.copy rec.filepath rec.undopath).1 with
        | false =>
            exact filesUntouched_keep_iff present apart (.refl _ _) keptOnly
              keeps
        | true =>
            refine (failureUntouched_bind_iff (ssCopyFile_apply _ _ _)).trans ?_
            obtain ⟨bytes, stored⟩ := Disk.exists_of_copy_done keeps
            have snapshot := Disk.bytesAt_copy_done apart.symm stored keeps
            generalize
              (ss.disk.copy rec.filepath rec.undopath).2 = kept
              at keptOnly snapshot ⊢
            have putOnly :=
              Disk.agreesOutside_copy ckpt.filepath rec.filepath kept
            cases puts : (kept.copy ckpt.filepath rec.filepath).1 with
            | true =>
                refine iff_of_true ?_ (by simp)
                refine .of_completes ?_ _ _
                exact .bind (.pure ()) fun _ =>
                  .bind (completes_ssTouchFileMetadata _ _ _ _) fun _ =>
                    .modify _
            | false =>
                refine failureUntouched_error_iff.trans ?_
                simp only [↓reduceIte, Bool.false_or, Bool.and_eq_true,
                  Bool.or_eq_true, decide_eq_true_eq]
                exact filesUntouched_putBack_iff present apart stored keptOnly
                  snapshot putOnly puts

end Requests

/--
A request that is answered with an error leaves content, undo snapshot, undo
flag and sessions as they were exactly if the faults to come spare them.
-/
theorem failureUntouched_iff_faultsSpare
    {ss : StorageServer}
    (placed : RecordsPlaced ss)
    (now : Int)
    (request : ContentRequest) :
    FailureUntouched ss (SsEvent.handler ⟨now, request.command⟩ ss) ↔
      faultsSpare ss request = true := by
  have apart :
      ∀ rec ∈ ss.files, rec.undopath ≠ rec.filepath :=
    fun rec present => (placed.wellPlaced rec present).undopath_apart.1
  cases request with
  | etirw fd =>
      simp only [ContentRequest.command, SsEvent.handler, handleClientEtirw,
        bind_apply, get_apply, faultsSpare]
      cases found : ssFindSession ss.sessions fd with
      | none => exact iff_of_true (.of_refused ss _) rfl
      | some session =>
          simp only [bind_apply, get_apply]
          cases reached : recordAt ss.files session.file with
          | none => exact iff_of_true (.of_ok ss ss) rfl
          | some rec =>
              have present := (mem_of_recordAt reached).1
              exact failureUntouched_commitSession_iff present
                (apart rec present) now fd session
  | undo fd msg =>
      rcases msg with _ | ⟨type, _ | ⟨username, _ | ⟨filename, rest⟩⟩⟩
      iterate 3 exact iff_of_true (.of_refused ss _) rfl
      simp only [ContentRequest.command, SsEvent.handler,
        handleClientUndo, faultsSpare]
      cases admitted : admittedRecord ss username filename with
      | none =>
          obtain ⟨refusal, refused⟩ :=
            handler_of_not_admitted admitted (undoRecord now fd username)
          rw [refused]
          exact iff_of_true (.of_refused ss refusal) rfl
      | some rec =>
          rw [handler_of_admitted admitted (undoRecord now fd username)]
          have present :=
            (ssFindFile_filename (admittedRecord_found admitted)).1
          exact failureUntouched_undoRecord_iff present
            (apart rec present) now fd username
  | revert fd msg =>
      rcases msg with
        _ | ⟨type, _ | ⟨username, _ | ⟨filename, _ | ⟨tag, rest⟩⟩⟩⟩
      iterate 4 exact iff_of_true (.of_refused ss _) rfl
      simp only [ContentRequest.command, SsEvent.handler,
        handleClientRevert, faultsSpare]
      refine failureUntouched_ensure_iff.trans ?_
      by_cases empty : tagCopy tag = []
      · simp only [empty, ↓reduceIte]
        exact iff_of_true (.refl ss) trivial
      · simp only [ne_eq, empty, not_false_eq_true, decide_true,
          ↓reduceIte]
        cases admitted : admittedRecord ss username filename with
        | none =>
            obtain ⟨refusal, refused⟩ :=
              handler_of_not_admitted admitted
                (revertRecord now fd username (tagCopy tag))
            rw [refused]
            exact iff_of_true (.of_refused ss refusal) rfl
        | some rec =>
            rw [handler_of_admitted admitted
              (revertRecord now fd username (tagCopy tag))]
            have present :=
              (ssFindFile_filename (admittedRecord_found admitted)).1
            exact failureUntouched_revertRecord_iff present
              (apart rec present) now fd username (tagCopy tag)

/-! ## A commit whose second write is refused -/

/-- A commit, and a session with an edit that is not committed yet. -/
def aboutToCommit : List SsEvent :=
  [ ⟨1, .createFile [str "CREATE_FILE", str "a", str "ada"]⟩,
    ⟨2, .writeLock 4 [str "REQ_WRITE_LOCK", str "ada", str "a", str "0"]⟩,
    ⟨3, .writeData 4 [str "WRITE_DATA", str "0", str "Old."]⟩,
    ⟨4, .etirw 4⟩,
    ⟨5, .writeLock 4 [str "REQ_WRITE_LOCK", str "ada", str "a", str "0"]⟩,
    ⟨6, .writeData 4 [str "WRITE_DATA", str "0", str "Very"]⟩ ]

/-- The server before the second commit, with faults to come. -/
def beforeCommit (faults : List Outcome) : StorageServer :=
  let ss := runFrom ssStep (newServer ⟨str "s", length_shortPath⟩) aboutToCommit
  { ss with disk := { ss.disk with outcomes := faults } }

/-- The records of a new server stay in their places. -/
theorem recordsPlaced_run
    (storagePath : {path : CString // path.length ≤ maxTagLength})
    (events : List SsEvent) :
    RecordsPlaced (runFrom ssStep (newServer storagePath) events) := by
  have initially : RecordsPlaced (newServer storagePath) :=
    recordsPlaced_of_no_files rfl
  have preserved :
      ∀ ss event, RecordsPlaced ss → RecordsPlaced (ssStep ss event) :=
    fun _ event placed => placed.ssStep event
  exact runFrom_invariant preserved initially events

theorem RecordsPlaced.withFaults
    {ss : StorageServer}
    (placed : RecordsPlaced ss)
    (faults : List Outcome) :
    RecordsPlaced
      { ss with disk := { ss.disk with outcomes := faults } } :=
  ⟨placed.addresses_nodup, placed.addresses_lt, placed.wellPlaced⟩

/-- The undo snapshot cannot be opened: the commit is refused as a whole. -/
theorem failureUntouched_undoNotOpened :
    Accepted (beforeCommit [.succeeds, .refused]) ⟨7, .etirw 4⟩ = false ∧
      FailureUntouched (beforeCommit [.succeeds, .refused])
        (SsEvent.handler ⟨7, (ContentRequest.etirw 4).command⟩
          (beforeCommit [.succeeds, .refused])) :=
  ⟨by decide +kernel,
    (failureUntouched_iff_faultsSpare ((recordsPlaced_run _ aboutToCommit).withFaults _) 7
      (.etirw 4)).mpr (by decide +kernel)⟩

/-- The content cannot be opened: the undo snapshot is already replaced. -/
theorem not_failureUntouched_contentNotOpened :
    ¬∀ (ss : StorageServer) (now : Int) (request : ContentRequest),
      RecordsPlaced ss →
        FailureUntouched ss
          (SsEvent.handler ⟨now, request.command⟩ ss) := by
  intro always
  have untouched :=
    always (beforeCommit [.succeeds, .succeeds, .refused]) 7 (.etirw 4)
      ((recordsPlaced_run _ aboutToCommit).withFaults _)
  have undopaths :
      (beforeCommit [.succeeds, .succeeds, .refused]).files.map
        FileRecord.undopath = [str "s/a.undo"] := by
    decide +kernel
  have before :
      (beforeCommit [.succeeds, .succeeds, .refused]).disk.bytesAt
        (str "s/a.undo") = some [] := by
    decide +kernel
  have replaced :
      (finalState
        (SsEvent.handler ⟨7, .etirw 4⟩
          (beforeCommit [.succeeds, .succeeds, .refused]))).disk.bytesAt
        (str "s/a.undo") = some (rawBytes (str "Old.")) := by
    decide +kernel
  have fails :
      Accepted (beforeCommit [.succeeds, .succeeds, .refused])
        ⟨7, .etirw 4⟩ = false := by
    decide +kernel
  cases outcome :
      SsEvent.handler ⟨7, .etirw 4⟩
        (beforeCommit [.succeeds, .succeeds, .refused]) with
  | ok value after =>
      rw [Accepted, outcome] at fails
      cases fails
  | error refusal after =>
      rw [outcome, finalState_error] at replaced
      obtain ⟨rec, isFile, isUndo⟩ := List.map_eq_singleton_iff.mp undopaths
      have unchanged :=
        (untouched refusal after outcome).undo_eq rec (by simp [isFile])
      rw [isUndo, replaced, before] at unchanged
      exact absurd unchanged (by decide)

end DistributedDocs
