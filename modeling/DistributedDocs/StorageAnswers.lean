import DistributedDocs.NameServerReplies
import DistributedDocs.RegistryAgreement

namespace DistributedDocs

/-!
# What storage servers answer

The errors of `ns_control_loop` have fixed texts, its other replies another
type than `ERR`, and a handler that is through has replied last of all.  So
what the name server hands on of them reaches its clients whole.
-/

/-! ## Steps of a handler -/

section Steps

variable {α : Type}

namespace Talks

theorem refused
    {code : Int}
    {text : String}
    {property : α → Prop}
    (plain : Refusal.Plain ⟨code, str text⟩) :
    Talks property (DistributedDocs.refuse code text : Handler α) :=
  throw plain

theorem ensured
    {condition : Bool}
    {otherwise : Handler Unit}
    (talks : Talks (fun _ => True) otherwise) :
    Talks (fun _ => True) (DistributedDocs.ensure condition otherwise) := by
  unfold DistributedDocs.ensure
  split
  · exact pure trivial
  · exact talks

theorem looked :
    Talks (fun _ => True) (MonadState.get : Handler StorageServer) :=
  fun _ _ => trivial

theorem modified (change : StorageServer → StorageServer) :
    Talks (fun _ => True) (modify change : Handler PUnit) :=
  fun _ _ => trivial

theorem onDisk (operation : Disk CString → α × Disk CString) :
    Talks (fun _ => True) (DistributedDocs.onDisk operation) :=
  fun _ _ => trivial

end Talks

theorem talks_ssReadFileContent (path : CString) :
    Talks (fun _ => True) (ssReadFileContent path) :=
  .andThen (.onDisk _) fun _ => .pure trivial

theorem talks_ssWriteMetadata (rec : FileRecord) :
    Talks (fun _ => True) (ssWriteMetadata rec) :=
  .andThen (.onDisk _) fun _ => .pure trivial

theorem talks_getFileSize (path : CString) :
    Talks (fun _ => True) (getFileSize path) := by
  unfold getFileSize
  refine .andThen .looked fun ss => ?_
  split
  · exact .pure trivial
  · exact .pure trivial

theorem talks_ssTouchFileMetadata
    (now : Int)
    (rec : FileRecord)
    (username : Option CString)
    (updateModified : Bool) :
    Talks (fun _ => True)
      (ssTouchFileMetadata now rec username updateModified) :=
  .andThen (.modified _) fun _ =>
    .andThen (talks_ssWriteMetadata _) fun _ => .pure trivial

theorem talks_ssSyncMetadataToNs (rec : FileRecord) :
    Talks (fun _ => True) (ssSyncMetadataToNs rec) := by
  unfold ssSyncMetadataToNs
  refine .andThen (talks_getFileSize _) fun size => ?_
  refine .andThen (talks_ssReadFileContent _) fun content => ?_
  exact .modified _

theorem talks_ssCreateFile
    (now : Int)
    (filename owner : CString) :
    Talks (fun _ => True) (ssCreateFile now filename owner) := by
  unfold ssCreateFile addRecord
  refine .andThen .looked fun ss => ?_
  split
  · exact .pure trivial
  · refine .andThen (.onDisk _) fun opened => ?_
    split
    · exact .pure trivial
    · refine .andThen (talks_ssWriteMetadata _) fun _ => ?_
      exact .andThen (.modified _) fun _ => .pure trivial

theorem talks_unlinkAll (paths : List CString) :
    Talks (fun _ => True) (paths.forM unlink : Handler PUnit) := by
  induction paths with
  | nil =>
      exact .pure trivial
  | cons path rest inductionHypothesis =>
      exact .andThen (.modified _) fun _ => inductionHypothesis

theorem talks_ssDeleteFile (filename : CString) :
    Talks (fun _ => True) (ssDeleteFile filename) := by
  unfold ssDeleteFile removeRecord
  refine .andThen .looked fun ss => ?_
  split
  · exact .pure trivial
  · refine .andThen .looked fun _ => ?_
    split
    · exact .pure trivial
    · refine .andThen ?_ fun _ => .pure trivial
      exact .andThen (talks_unlinkAll _) fun _ => .modified _

theorem talks_ssHandleRename
    (now : Int)
    (oldLogical newLogical oldFlat newFlat : CString) :
    Talks (fun _ => True)
      (ssHandleRename now oldLogical newLogical oldFlat newFlat) := by
  unfold ssHandleRename renameRecord
  refine .andThen .looked fun ss => ?_
  split
  · split
    · split
      · exact .pure trivial
      · split
        · split
          · refine .andThen (.onDisk _) fun renamed => ?_
            split
            · refine .andThen (.onDisk _) fun _ => ?_
              refine .andThen (.onDisk _) fun _ => ?_
              exact .andThen (talks_ssTouchFileMetadata _ _ _ _) fun _ =>
                .pure trivial
            · exact .pure trivial
          · exact .pure trivial
        · exact .pure trivial
    · exact .pure trivial
  · exact .pure trivial

/-- Whatever the peer sends, a copy that fails has a fixed text. -/
theorem talks_receiveChunks
    (tempPath : CString)
    (messages : List (Option (List CString))) :
    Talks PlainFailure (receiveChunks tempPath messages) := by
  have fails :
      ∀ {code : Int} {text : String},
        Refusal.Plain ⟨code, str text⟩ →
          Talks PlainFailure
            (pure (some ⟨code, str text⟩) : Handler (Option Refusal)) :=
    fun plain => .pure (plainFailure_some plain)
  have rejected :
      ∀ peerCode : Int,
        Talks PlainFailure
          (if peerCode = errFileNotFound then
            pure (some ⟨errFileNotFound, str "Source file not found"⟩)
          else if peerCode = errPermissionDenied then
            pure (some ⟨errPermissionDenied, str "Source access denied"⟩)
          else
            pure (some ⟨errInternalError, str "Source server rejected COPY"⟩) :
            Handler (Option Refusal)) := by
    intro peerCode
    split
    · exact fails (by decide)
    · split
      · exact fails (by decide)
      · exact fails (by decide)
  induction messages with
  | nil =>
      rw [receiveChunks]
      exact fails (by decide)
  | cons message rest inductionHypothesis =>
      rcases message with _ | _ | ⟨type, arguments⟩
      · rw [receiveChunks]
        exact fails (by decide)
      · rw [receiveChunks]
        exact fails (by decide)
      · unfold receiveChunks
        simp only
        split
        · exact rejected _
        · split
          · split
            · exact inductionHypothesis
            · refine .andThen (.onDisk _) fun ended => ?_
              split
              · exact inductionHypothesis
              · exact fails (by decide)
            · exact inductionHypothesis
          · split
            · exact .pure plainFailure_none
            · exact inductionHypothesis

theorem talks_fetchSource
    (peer : PeerSession)
    (srcRec : Option FileRecord)
    (tempPath : CString) :
    Talks PlainFailure (fetchSource peer srcRec tempPath) := by
  unfold fetchSource
  split
  · unfold cloneLocal ssCopyFile
    refine .andThen (.onDisk _) fun copied => ?_
    split
    · exact .pure plainFailure_none
    · exact .pure (plainFailure_some (by decide))
  · unfold fetchRemote
    split
    · exact .pure (plainFailure_some (by decide))
    · exact .pure (plainFailure_some (by decide))
    · refine .andThen (.onDisk _) fun opened => ?_
      split
      · exact .pure (plainFailure_some (by decide))
      · refine .bind (talks_receiveChunks _ _) fun failure plain => ?_
        exact .andThen (.ensured (.modified _)) fun _ => .pure plain

theorem talks_idleCopyRecords
    (sourceIsLocal : Bool)
    (srcFilename destFilename : CString) :
    Talks (fun _ => True)
      (idleCopyRecords sourceIsLocal srcFilename destFilename) := by
  unfold idleCopyRecords
  refine .andThen .looked fun ss => ?_
  extract_lets srcRec
  split
  · refine .andThen (.ensured (.refused (by decide))) fun _ => ?_
    refine .andThen (.ensured (.refused (by decide))) fun _ => ?_
    refine .andThen (.ensured (.refused (by decide))) fun _ => ?_
    exact .pure trivial
  · exact .refused (by decide)

end Steps

/-! ## Handlers -/

/-- The handler leaves with a plain error, or has replied last of all. -/
def Answers (request : List CString) (handler : Handler Unit) : Prop :=
  Yields (fun _ => True)
    (fun _ after =>
      ∃ reply, after.sent.getLast? = some reply ∧
        PlainAnswer request (.message reply.fields))
    Refusal.Plain handler

/-- A text behind a label of its own. -/
theorem head?_ne_error
    {type : CString}
    (other : type ≠ str "ERR")
    (arguments : List CString) :
    (type :: arguments).head? ≠ some (str "ERR") :=
  fun same => other (Option.some.inj same)

namespace Answers

variable
  {α : Type}
  {request : List CString}

theorem refuse
    {code : Int}
    {text : String}
    (plain : Refusal.Plain ⟨code, str text⟩) :
    Answers request (DistributedDocs.refuse code text) :=
  Yields.throw plain

theorem after
    {found : α → Prop}
    {first : Handler α}
    {next : α → Handler Unit}
    (talks : Talks found first)
    (second : ∀ value, found value → Answers request (next value)) :
    Answers request (first >>= next) :=
  Yields.bind talks fun value state holds => second value holds state trivial

theorem andThen
    {first : Handler α}
    {next : α → Handler Unit}
    (talks : Talks (fun _ => True) first)
    (second : ∀ value, Answers request (next value)) :
    Answers request (first >>= next) :=
  after talks fun value _ => second value

/-- The last step of a handler that is through. -/
theorem send
    {fields : List CString}
    (noError : fields.head? ≠ some (str "ERR"))
    (ofCopy : request.head? = some (str "SS_COPY") → Deliverable fields) :
    Answers request (DistributedDocs.send .nameServer fields) :=
  fun _ _ =>
    ⟨⟨.nameServer, fields⟩, List.getLast?_concat,
      fun isError => absurd isError noError, ofCopy⟩

/-- The same with a reply of another type, to a request that is no copy. -/
theorem sendNoError
    (noCopy : request.head? ≠ some (str "SS_COPY"))
    {type : CString}
    (other : type ≠ str "ERR")
    (arguments : List CString) :
    Answers request
      (DistributedDocs.send .nameServer (type :: arguments)) :=
  .send (head?_ne_error other arguments) fun copies => absurd copies noCopy

/-- What the name server gets of a handler. -/
theorem plainAnswer
    {handler : Handler Unit}
    (answers : Answers request handler)
    (ss : StorageServer) :
    PlainAnswer request (replyOf (handler ss)).1 := by
  have outcome := answers ss trivial
  cases ran : handler ss with
  | ok value final =>
      rw [ran] at outcome
      obtain ⟨reply, isLast, plain⟩ := outcome
      simp only [replyOf, isLast]
      exact plain
  | error refusal after =>
      rw [ran] at outcome
      exact ⟨fun _ => ⟨refusal, outcome, rfl⟩, fun _ => outcome.deliverable⟩

end Answers

section Handlers

variable
  (now : Int)
  {msg : List CString}
  (noCopy : msg.head? ≠ some (str "SS_COPY"))

include noCopy

theorem answers_nsCreateFile : Answers msg (nsCreateFile now msg) := by
  unfold nsCreateFile
  split
  · refine .andThen (.ensured (.refused (by decide))) fun _ => ?_
    refine .andThen (talks_ssCreateFile now _ _) fun created => ?_
    refine .andThen (.ensured (.refused (by decide))) fun _ => ?_
    exact .sendNoError noCopy (by decide) _
  · exact .refuse (by decide)

theorem answers_nsDeleteFile : Answers msg (nsDeleteFile msg) := by
  unfold nsDeleteFile
  split
  · refine .andThen (.ensured (.refused (by decide))) fun _ => ?_
    refine .andThen (talks_ssDeleteFile _) fun status => ?_
    cases status with
    | notFound => exact .refuse (by decide)
    | locked => exact .refuse (by decide)
    | deleted =>
        exact .sendNoError noCopy (by decide) _
  · exact .refuse (by decide)

theorem answers_nsGetStats : Answers msg (nsGetStats msg) := by
  unfold nsGetStats
  split
  · refine .andThen .looked fun ss => ?_
    split
    · refine .andThen (talks_getFileSize _) fun size => ?_
      refine .andThen (talks_ssReadFileContent _) fun content => ?_
      exact .sendNoError noCopy (by decide) _
    · exact .refuse (by decide)
  · exact .refuse (by decide)

theorem answers_nsGetContent : Answers msg (nsGetContent msg) := by
  unfold nsGetContent
  split
  · refine .andThen .looked fun ss => ?_
    split
    · refine .andThen (talks_ssReadFileContent _) fun content => ?_
      split
      · exact .sendNoError noCopy (by decide) _
      · exact .refuse (by decide)
    · exact .refuse (by decide)
  · exact .refuse (by decide)

theorem answers_nsRename : Answers msg (nsRename now msg) := by
  unfold nsRename
  split
  · refine .andThen (.ensured (.refused (by decide))) fun _ => ?_
    refine .andThen (talks_ssHandleRename now _ _ _ _) fun renamed => ?_
    refine .andThen (.ensured (.refused (by decide))) fun _ => ?_
    exact .sendNoError noCopy (by decide) _
  · exact .refuse (by decide)

theorem answers_nsAddAccess : Answers msg (nsAddAccess msg) := by
  unfold nsAddAccess
  split
  · next type filename username permToken rest =>
    refine .andThen .looked fun ss => ?_
    split
    · refine .andThen (.ensured (.refused (by decide))) fun _ => ?_
      unfold addAccessTo
      refine .andThen (.modified _) fun _ => ?_
      extract_lets reply
      have replies :
          ∀ described,
            Answers (type :: filename :: username :: permToken :: rest)
              (reply described) := by
        intro described
        simp only [reply]
        split
        · exact .sendNoError noCopy (by decide) _
        · exact .andThen (.modified _) fun _ => .refuse (by decide)
      split
      · exact .andThen (talks_ssWriteMetadata _) replies
      · exact replies true
    · exact .refuse (by decide)
  · exact .refuse (by decide)

theorem answers_nsRemAccess : Answers msg (nsRemAccess msg) := by
  unfold nsRemAccess
  split
  · refine .andThen .looked fun ss => ?_
    split
    · unfold removeAccessFrom
      refine .andThen (.modified _) fun _ => ?_
      refine .andThen (.ensured (.refused (by decide))) fun _ => ?_
      refine .andThen (talks_ssWriteMetadata _) fun described => ?_
      refine .andThen (.ensured ?_) fun _ => ?_
      · exact .andThen (.modified _) fun _ => .refused (by decide)
      · exact .sendNoError noCopy (by decide) _
    · exact .refuse (by decide)
  · exact .refuse (by decide)

omit noCopy in
/-- The reply to a copy, which the name server hands on, arrives whole. -/
theorem answers_handleSsCopy (peer : PeerSession) :
    Answers msg (handleSsCopy now peer msg) := by
  unfold handleSsCopy
  split
  · refine .andThen (.ensured (.refused (by decide))) fun _ => ?_
    refine .andThen (.ensured (.refused (by decide))) fun _ => ?_
    refine .andThen (talks_idleCopyRecords _ _ _) fun records => ?_
    unfold copyInto
    refine .andThen (.modified _) fun _ => ?_
    refine .after (talks_fetchSource peer _ _) fun failure plain => ?_
    cases failure with
    | some refusal =>
        refine .andThen (.modified _) fun _ => ?_
        exact Yields.throw (plain refusal rfl)
    | none =>
        refine .andThen (.onDisk _) fun renamed => ?_
        refine .andThen (.ensured ?_) fun _ => ?_
        · exact .andThen (.modified _) fun _ => .refused (by decide)
        · refine .andThen (talks_ssTouchFileMetadata _ _ _ _) fun _ => ?_
          refine .andThen (talks_ssSyncMetadataToNs _) fun _ => ?_
          exact .send (head?_ne_error (by decide) _) fun _ =>
            deliverable_okReply (by decide)
  · exact .refuse (by decide)

end Handlers

/-! ## All requests -/

/-- Whatever it is asked, a storage server answers plainly. -/
theorem plainAnswer_answerRequest
    (now : Int)
    (peer : PeerSession)
    (msg : List CString)
    (ss : StorageServer) :
    PlainAnswer msg (answerRequest now peer msg ss).1 := by
  unfold answerRequest
  split
  · next handler isHandler =>
    refine Answers.plainAnswer ?_ ss
    unfold controlHandler at isHandler
    split at isHandler
    · cases isHandler
    · next command arguments =>
      have apart :
          ∀ {name : String}, str name ≠ str "SS_COPY" →
            command = str name →
              (command :: arguments).head? ≠ some (str "SS_COPY") :=
        fun other isCommand same =>
          other (isCommand.symm.trans (Option.some.inj same))
      split at isHandler
      · next isCommand =>
        obtain rfl := Option.some.inj isHandler
        exact answers_nsCreateFile now (apart (by decide) isCommand)
      split at isHandler
      · next isCommand =>
        obtain rfl := Option.some.inj isHandler
        exact answers_nsDeleteFile (apart (by decide) isCommand)
      split at isHandler
      · next isCommand =>
        obtain rfl := Option.some.inj isHandler
        exact answers_nsGetStats (apart (by decide) isCommand)
      split at isHandler
      · next isCommand =>
        obtain rfl := Option.some.inj isHandler
        exact answers_nsGetContent (apart (by decide) isCommand)
      split at isHandler
      · next isCommand =>
        obtain rfl := Option.some.inj isHandler
        exact answers_nsRename now (apart (by decide) isCommand)
      split at isHandler
      · next isCommand =>
        obtain rfl := Option.some.inj isHandler
        exact answers_nsAddAccess (apart (by decide) isCommand)
      split at isHandler
      · next isCommand =>
        obtain rfl := Option.some.inj isHandler
        exact answers_nsRemAccess (apart (by decide) isCommand)
      split at isHandler
      · obtain rfl := Option.some.inj isHandler
        exact answers_handleSsCopy now peer
      · cases isHandler
  · trivial

/-- So do all storage servers the name server may ask. -/
theorem plainAnswer_fleetBackend
    (address : Nat)
    (fields : List CString)
    (fleet : Fleet) :
    PlainAnswer fields (fleetBackend address fields fleet).1 :=
  plainAnswer_answerRequest _ _ fields _

end DistributedDocs
