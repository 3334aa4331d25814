import DistributedDocs.ProgramRules
import DistributedDocs.StorageServer
import DistributedDocs.WireProtocol

namespace DistributedDocs

/-!
# Texts on the wire

Edits travel from `client_handle_write` to `handle_client_write_data` and file
contents from `handle_client_read` to two readers.  Both put the raw text into
one field; this module says which texts arrive as they were sent.
-/

/-! ## Sending an edit -/

/-- `CLIENT_BUFFER_SIZE` -/
def clientBufferSize : Nat :=
  8192

/-- A blank the loop of `client_handle_write` skips. -/
def isBlank (c : CChar) : Bool :=
  c = CChar.ofChar ' ' || c = CChar.ofChar '\t'

/-- What `client_handle_write` makes of an input line. -/
inductive WriteInput where
  | empty
  | etirw
  | invalidIndex
  | edit (wordIndex : Int) (content : CString)
  deriving DecidableEq

/--
The parsing of an input line; `strtol` sets `errno` only for values that are
above `INT_MAX` or negative anyway.
-/
def parseWriteInput (inputLine : CString) : WriteInput :=
  let cursor := (stripNewline inputLine).dropWhile isBlank
  if cursor = [] then .empty
  else if cursor = str "ETIRW" then .etirw
  else
    let (value, rest) := strtol cursor
    if rest = cursor || value < 0 || 2147483647 < value then .invalidIndex
    else .edit value (rest.dropWhile isBlank)

/-- The `WRITE_DATA` message of an edit. -/
def writeDataMessage (wordIndex : Int) (content : CString) : CString :=
  protocolBuildMessage [str "WRITE_DATA", decimal wordIndex, content]

/-- What `handle_client_write_data` gives to `ss_apply_word_edit`. -/
def editContent (msg : List CString) : Option CString :=
  msg[2]?

/--
Whichever server answers the message of an edit with `OK` has been given the
content of the edit.
-/
def WriteDelivered (content : CString) : Prop :=
  ∀ wordIndex : Int, 0 ≤ wordIndex → FitsInt wordIndex →
    ∀ msg ∈ receivedMessages (writeDataMessage wordIndex content),
      ∀ (ss : StorageServer) (now : Int) (fd : Nat),
        Accepted ss ⟨now, .writeData fd msg⟩ = true →
          editContent msg = some content

/-! ## Reading a file -/

/-- The messages `handle_client_read` sends for a content. -/
def readMessages (filename content : CString) : List (List CString) :=
  [[str "OK_READ_START", filename], [str "OK_CONTENT", content],
    [str "OK_READ_END"]]

/-- `handle_client_read`, from the record on. -/
def readRecord
    (now : Int)
    (fd : Nat)
    (username : CString)
    (rec : FileRecord) : Handler Unit := do
  ensure (ssCheckReadAccess rec username)
    (refuse errPermissionDenied "No read access")
  let some content ← ssReadFileContent rec.filepath
    | refuse errInternalError "Failed to read file"
  (readMessages rec.filename content).forM (send (.client fd))
  ssTouchFileMetadata now rec (some username) false

/-- `handle_client_read` -/
def handleClientRead
    (now : Int)
    (fd : Nat)
    (msg : List CString) : Handler Unit := do
  match msg with
  | _ :: username :: filename :: _ =>
      let some rec := ssFindFile (← get).files filename
        | refuse errFileNotFound "File not found"
      readRecord now fd username rec
  | _ =>
      refuse errInvalidRequest "Missing fields in REQ_READ"

/-- A read that is accepted sends the messages for the content it has read. -/
theorem sent_readRecord
    {now : Int}
    {fd : Nat}
    {username : CString}
    {rec : FileRecord}
    {ss after : StorageServer}
    (accepted : readRecord now fd username rec ss = .ok () after) :
    ∃ bytes,
      (ss.disk.read rec.filepath).1 = some bytes ∧
        after.sent =
          ss.sent ++
            (readMessages rec.filename (cString bytes)).map
              (Message.mk (.client fd)) := by
  cases allowed : ssCheckReadAccess rec username with
  | false =>
      simp [readRecord, bind_apply, allowed] at accepted
  | true =>
      cases content : (ss.disk.read rec.filepath).1 with
      | none =>
          simp [readRecord, bind_apply, allowed, ssReadFileContent, content]
            at accepted
      | some bytes =>
          refine ⟨bytes, rfl, ?_⟩
          simp [readRecord, bind_apply, allowed, ssReadFileContent, content,
            readMessages, ssTouchFileMetadata, ssWriteMetadata]
            at accepted
          rw [← accepted]
          simp [readMessages]

/-- The bytes `handle_client_read` sends for a content. -/
def readReply (filename content : CString) : CString :=
  (readMessages filename content).flatMap protocolBuildMessage

/--
`client_receive_read_stream` on the messages it receives: the payload it has
printed, or none where it returns -1.
-/
def clientReceiveReadStream (sawStart : Bool) (printed : CString) :
    List (List CString) → Option CString
  | [] =>
      none
  | [] :: _ =>
      none
  | (type :: arguments) :: rest =>
      if type = str "ERR" then
        none
      else if type = str "OK_READ_START" then
        clientReceiveReadStream true printed rest
      else if type = str "OK_CONTENT" then
        clientReceiveReadStream sawStart (printed ++ arguments.headD []) rest
      else if type = str "OK_READ_END" then
        if sawStart then some printed else none
      else
        none

/-- A name a file can be requested by. -/
structure RequestableName (filename : CString) : Prop where
  plain : PlainField filename
  short : filename.length < maxFilenameLength

/-- A reader of the reply for a content that succeeds has the content. -/
structure ReadFaithful (content : CString) : Prop where
  client :
    ∀ filename payload : CString, RequestableName filename →
      clientReceiveReadStream false []
          (receivedMessages (readReply filename content)) = some payload →
        payload = content
  copy :
    ∀ (filename tempPath : CString) (ss after : StorageServer),
      RequestableName filename →
        ss.disk.bytesAt tempPath = some [] →
          receiveChunks tempPath
              ((receivedMessages (readReply filename content)).map some) ss =
              .ok none after →
            after.disk.bytesAt tempPath = some (rawBytes content)

/-! ## Which edits are sent -/

/-- What a line that `fgets` gives can be an edit of. -/
theorem edit_of_parseWriteInput
    {inputLine : CString}
    (oneLine : newline ∉ inputLine.dropLast)
    (short : inputLine.length < clientBufferSize)
    {wordIndex : Int}
    {content : CString}
    (parsed : parseWriteInput inputLine = .edit wordIndex content) :
    (0 ≤ wordIndex ∧ FitsInt wordIndex) ∧
      newline ∉ content ∧ content.length < clientBufferSize := by
  simp only [parseWriteInput] at parsed
  split at parsed
  · cases parsed
  · split at parsed
    · cases parsed
    · split at parsed
      · cases parsed
      · next inRange =>
        obtain ⟨rfl, rfl⟩ := WriteInput.edit.inj parsed
        simp only [Bool.or_eq_true, decide_eq_true_eq, not_or, Int.not_lt]
          at inRange
        have kept :=
          ((List.dropWhile_sublist isBlank).trans (strtol_sublist _)).trans
            (List.dropWhile_sublist isBlank (l := stripNewline inputLine))
        refine
          ⟨⟨inRange.1.2, ?_, inRange.2⟩,
            fun member =>
              newline_not_mem_stripNewline oneLine (kept.subset member),
            ?_⟩
        · exact Int.le_trans (by decide) inRange.1.2
        · exact
            Nat.lt_of_le_of_lt
              (kept.trans (stripNewline_sublist inputLine)).length_le short

/-! ## Which edits are delivered -/

theorem length_writeDataMessage_short
    {wordIndex : Int}
    (fits : FitsInt wordIndex)
    {content : CString}
    (short : content.length < clientBufferSize) :
    ¬TooLong
        (List.intercalate [protocolDelimiter]
          [str "WRITE_DATA", decimal wordIndex, content]) := by
  have label : (str "WRITE_DATA").length = 10 := by decide
  have number :=
    length_decimal_le (n := wordIndex) (by
      obtain ⟨low, high⟩ := fits
      exact ⟨by omega, by omega⟩)
  have joined :=
    length_intercalate_add_one protocolDelimiter
      (List.cons_ne_nil (str "WRITE_DATA") [decimal wordIndex, content])
  simp only [roomFor_cons, roomFor_nil, label] at joined
  rw [clientBufferSize] at short
  rw [TooLong, maxMessageSize]
  omega

/-- The message of an edit is received as one message. -/
theorem receivedMessages_writeDataMessage
    {wordIndex : Int}
    (fits : FitsInt wordIndex)
    {content : CString}
    (oneLine : newline ∉ content)
    (short : content.length < clientBufferSize) :
    receivedMessages (writeDataMessage wordIndex content) =
      [str "WRITE_DATA" ::
        decimal wordIndex ::
          (content.splitOnP fun c => c = protocolDelimiter).take
            (maxFields - 2)] := by
  have lineFree :
      newline ∉
        List.intercalate [protocolDelimiter]
          [str "WRITE_DATA", decimal wordIndex, content] := by
    intro member
    rcases mem_intercalate member with isDelimiter | ⟨field, listed, inField⟩
    · exact absurd isDelimiter (by decide)
    · simp only [List.mem_cons, List.not_mem_nil, or_false] at listed
      rcases listed with rfl | rfl | rfl
      · exact absurd inField (by decide)
      · exact (plainField_decimal wordIndex).2 inField
      · exact oneLine inField
  have regrouped :
      List.intercalate [protocolDelimiter]
          [str "WRITE_DATA", decimal wordIndex, content] =
        str "WRITE_DATA" ++
          protocolDelimiter ::
            (decimal wordIndex ++ protocolDelimiter :: content) := by
    simp
  have numberFree :
      ∀ c ∈ decimal wordIndex, decide (c = protocolDelimiter) = false := by
    intro c member
    rw [decide_eq_false_iff_not]
    rintro rfl
    exact (plainField_decimal wordIndex).1 member
  rw [writeDataMessage, protocolBuildMessage, receivedMessages_line lineFree,
    if_neg (length_writeDataMessage_short fits short), regrouped,
    fieldsOf_delimited (by decide),
    List.splitOnP_append_cons_of_forall_mem numberFree _
      (decide_eq_true rfl),
    receivedMessages_nil]
  rfl

/-- The content that is given to `ss_apply_word_edit`. -/
theorem editContent_received
    {wordIndex : Int}
    (fits : FitsInt wordIndex)
    {content : CString}
    (oneLine : newline ∉ content)
    (short : content.length < clientBufferSize) :
    ∃ msg,
      receivedMessages (writeDataMessage wordIndex content) = [msg] ∧
        msg[1]? = some (decimal wordIndex) ∧
          editContent msg = some (firstField content) := by
  obtain ⟨others, split⟩ :=
    splitOnP_eq_cons (fun c => decide (c = protocolDelimiter)) content
  refine ⟨_, receivedMessages_writeDataMessage fits oneLine short, rfl, ?_⟩
  rw [editContent, split, firstField]
  simp [maxFields]

/-- A server on which a client edits an empty sentence. -/
def editingServer : StorageServer :=
  { newServer ⟨[], by decide⟩ with
    sessions :=
      [⟨0, 0, str "alice", 0, 0, 0, [], []⟩] }

/-- It answers every edit at the first word with `OK`. -/
theorem accepted_editingServer (type content : CString) (rest : List CString) :
    Accepted editingServer
        ⟨0, .writeData 0 (type :: decimal 0 :: content :: rest)⟩ = true := by
  obtain ⟨joined, edited⟩ :
      ∃ joined, ssApplyWordEdit [] 0 content = some joined := by
    by_cases words : (splitWords content).length > 0
    · exact ⟨_, if_pos words⟩
    · exact ⟨_, if_neg words⟩
  have index : parseInt (decimal 0) = some 0 := by decide
  have session :
      ssFindSession editingServer.sessions 0 =
        some ⟨0, 0, str "alice", 0, 0, 0, [], []⟩ :=
    rfl
  simp only [Accepted, SsEvent.handler, handleClientWriteData, index,
    bind_apply, ensure_apply, Int.le_refl, decide_true, ↓reduceIte, get_apply,
    session, edited, modifySessions_apply, send_apply]

/-- An edit is delivered exactly if its content has no delimiter in it. -/
theorem writeDelivered_iff
    {content : CString}
    (oneLine : newline ∉ content)
    (short : content.length < clientBufferSize) :
    WriteDelivered content ↔ protocolDelimiter ∉ content := by
  constructor
  · intro delivered member
    have zeroFits : FitsInt 0 := ⟨by decide, by decide⟩
    obtain ⟨msg, received, index, given⟩ :=
      editContent_received zeroFits oneLine short
    have accepted :
        Accepted editingServer ⟨0, .writeData 0 msg⟩ = true := by
      match msg, index, given with
      | type :: _ :: sent :: rest, rfl, _ =>
          exact accepted_editingServer type sent rest
    have whole := delivered 0 (by decide) zeroFits msg (by simp [received])
      editingServer 0 0 accepted
    have same : firstField content = content :=
      Option.some.inj (given.symm.trans whole)
    rw [← same] at member
    exact not_mem_firstField content member
  · intro plain wordIndex _ fits msg received _ _ _ _
    obtain ⟨only, same, _, given⟩ :=
      editContent_received fits oneLine short
    rw [same, List.mem_singleton] at received
    rw [received, given, firstField_of_plain plain]

/-! ## The lines of a reply -/

/-- The line on which the content begins. -/
def contentLine (first : CString) : CString :=
  str "OK_CONTENT" ++ protocolDelimiter :: first

theorem newline_not_mem_contentLine
    {first : CString}
    (oneLine : newline ∉ first) :
    newline ∉ contentLine first := by
  intro member
  rcases List.mem_append.mp member with inLabel | behind
  · exact absurd inLabel (by decide)
  · rcases List.mem_cons.mp behind with isDelimiter | inFirst
    · exact absurd isDelimiter (by decide)
    · exact oneLine inFirst

/-- The lines a reader sees behind the start of a reply. -/
def replyLines (first : CString) (rest : List CString) : List CString :=
  contentLine first :: (rest ++ [str "OK_READ_END"])

theorem newline_not_mem_replyLines
    {first : CString}
    {rest : List CString}
    (oneLine : ∀ line ∈ first :: rest, newline ∉ line) :
    ∀ line ∈ replyLines first rest, newline ∉ line := by
  intro line listed
  rcases List.mem_cons.mp listed with rfl | behind
  · exact newline_not_mem_contentLine (oneLine first List.mem_cons_self)
  · rcases List.mem_append.mp behind with inRest | isEnd
    · exact oneLine line (List.mem_cons_of_mem first inRest)
    · rw [List.mem_singleton.mp isEnd]
      decide

/-- A content breaks the reply into lines. -/
theorem messages_readReply
    {filename : CString}
    (name : RequestableName filename)
    {content first : CString}
    {rest : List CString}
    (lines : content.splitOnP (fun c => c = newline) = first :: rest) :
    receivedMessages (readReply filename content) =
      [str "OK_READ_START", filename] ::
        messagesOfLines (replyLines first rest) := by
  have oneLine : ∀ line ∈ first :: rest, newline ∉ line := by
    intro line listed member
    rw [← lines] at listed
    exact of_decide_eq_false (of_mem_splitOnP listed member).2 rfl
  have whole : content ++ [newline] = joinLines (first :: rest) := by
    rw [← lines, joinLines_splitOnP]
  have reply :
      readReply filename content =
        (str "OK_READ_START" ++ protocolDelimiter :: filename) ++
          newline :: joinLines (replyLines first rest) := by
    have contentMessage :
        protocolBuildMessage [str "OK_CONTENT", content] =
          joinLines (contentLine first :: rest) := by
      rw [joinLines_cons] at whole
      rw [joinLines_cons, contentLine, List.append_assoc, List.cons_append,
        ← whole]
      simp [protocolBuildMessage]
    have endMessage :
        protocolBuildMessage [str "OK_READ_END"] =
          joinLines [str "OK_READ_END"] := by
      simp [protocolBuildMessage, joinLines]
    rw [replyLines, ← List.cons_append, joinLines_append, ← contentMessage,
      ← endMessage]
    simp [readReply, readMessages, protocolBuildMessage]
  have startFree :
      newline ∉ str "OK_READ_START" ++ protocolDelimiter :: filename := by
    intro member
    rcases List.mem_append.mp member with inLabel | behind
    · exact absurd inLabel (by decide)
    · rcases List.mem_cons.mp behind with isDelimiter | inName
      · exact absurd isDelimiter (by decide)
      · exact name.plain.2 inName
  have startFits :
      ¬TooLong (str "OK_READ_START" ++ protocolDelimiter :: filename) := by
    have label : (str "OK_READ_START").length = 13 := by decide
    have nameShort := name.short
    rw [maxFilenameLength] at nameShort
    rw [TooLong, maxMessageSize, List.length_append, List.length_cons, label]
    omega
  have startFields :
      fieldsOf (str "OK_READ_START" ++ protocolDelimiter :: filename) =
        [str "OK_READ_START", filename] := by
    have nameFree :
        ∀ c ∈ filename, decide (c = protocolDelimiter) = false := by
      intro c member
      rw [decide_eq_false_iff_not]
      rintro rfl
      exact name.plain.1 member
    rw [fieldsOf_delimited (by decide), List.splitOnP_eq_singleton nameFree]
    rfl
  rw [reply, receivedMessages_line startFree, if_neg startFits, startFields,
    receivedMessages_joinLines (newline_not_mem_replyLines oneLine)]

/-! ## What a copy assembles -/

/--
What the loop of `handle_ss_copy` has written when it succeeds, on a disk that
gives no trouble.
-/
def copiedPayload (written : CString) : List (List CString) → Option CString
  | [] =>
      none
  | [] :: _ =>
      none
  | (type :: arguments) :: rest =>
      if type = str "ERR" then
        none
      else if type = str "OK_CONTENT" then
        copiedPayload (written ++ arguments.headD []) rest
      else if type = str "OK_READ_END" then
        some written
      else
        copiedPayload written rest

theorem bytesAt_append_of_complete
    {path : CString}
    {bytes present : List UInt8}
    (nonempty : bytes ≠ [])
    {disk : Disk CString}
    (stored : disk.bytesAt path = some present)
    (complete : (disk.append path bytes).1 = .complete) :
    (disk.append path bytes).2.bytesAt path = some (present ++ bytes) := by
  unfold Disk.append at complete ⊢
  simp only [stored, Option.getD_some] at complete ⊢
  split at complete
  · rw [Disk.bytesAt_set_same]
  · simp [nonempty] at complete
  · split at complete
    · cases complete
    · next all =>
      rw [Disk.bytesAt_set_same, List.take_of_length_le (Nat.not_lt.mp all)]

/-- A copy that succeeds has written what its messages carry. -/
theorem copiedPayload_of_receiveChunks
    {tempPath : CString}
    {messages : List (List CString)}
    {written : CString}
    {ss after : StorageServer}
    (stored : ss.disk.bytesAt tempPath = some (rawBytes written))
    (succeeds :
      receiveChunks tempPath (messages.map some) ss = .ok none after) :
    ∃ payload,
      copiedPayload written messages = some payload ∧
        after.disk.bytesAt tempPath = some (rawBytes payload) := by
  induction messages generalizing written ss with
  | nil =>
      cases succeeds
  | cons message rest inductionHypothesis =>
      cases message with
      | nil =>
          cases succeeds
      | cons type arguments =>
          rw [List.map_cons] at succeeds
          unfold receiveChunks at succeeds
          rw [copiedPayload]
          by_cases isError : type = str "ERR"
          · rw [if_pos isError] at succeeds
            cases arguments with
            | nil =>
                cases succeeds
            | cons code others =>
                simp only at succeeds
                split at succeeds
                · cases succeeds
                · split at succeeds
                  · cases succeeds
                  · cases succeeds
          · rw [if_neg isError] at succeeds ⊢
            by_cases isContent : type = str "OK_CONTENT"
            · rw [if_pos isContent] at succeeds ⊢
              match arguments with
              | [] =>
                  simpa using inductionHypothesis stored succeeds
              | [] :: _ =>
                  simpa using inductionHypothesis stored succeeds
              | (c :: chunk) :: _ =>
                  rw [List.headD_cons]
                  simp only [bind_apply, onDisk_apply] at succeeds
                  split at succeeds
                  · next complete =>
                    have joined :
                        rawBytes (written ++ c :: chunk) =
                          rawBytes written ++ rawBytes (c :: chunk) :=
                      List.map_append
                    refine inductionHypothesis ?_ succeeds
                    rw [joined]
                    exact bytesAt_append_of_complete (by simp [rawBytes])
                      stored complete
                  · cases succeeds
            · rw [if_neg isContent] at succeeds ⊢
              by_cases isEnd : type = str "OK_READ_END"
              · rw [if_pos isEnd] at succeeds ⊢
                cases succeeds
                exact ⟨written, rfl, stored⟩
              · rw [if_neg isEnd] at succeeds ⊢
                exact inductionHypothesis stored succeeds

/-- On a disk that gives no trouble a copy ends as its messages say. -/
theorem receiveChunks_undisturbed
    {tempPath : CString}
    {messages : List (List CString)}
    {written payload : CString}
    {ss : StorageServer}
    (undisturbed : ss.disk.outcomes = [])
    (copied : copiedPayload written messages = some payload) :
    ∃ after,
      receiveChunks tempPath (messages.map some) ss = .ok none after := by
  induction messages generalizing written ss with
  | nil =>
      cases copied
  | cons message rest inductionHypothesis =>
      cases message with
      | nil =>
          cases copied
      | cons type arguments =>
          rw [List.map_cons]
          unfold receiveChunks
          rw [copiedPayload] at copied
          by_cases isError : type = str "ERR"
          · rw [if_pos isError] at copied
            cases copied
          · rw [if_neg isError] at copied ⊢
            by_cases isContent : type = str "OK_CONTENT"
            · rw [if_pos isContent] at copied ⊢
              match arguments with
              | [] =>
                  exact inductionHypothesis undisturbed copied
              | [] :: _ =>
                  exact inductionHypothesis undisturbed copied
              | (c :: chunk) :: _ =>
                  simp only [bind_apply, onDisk_apply,
                    Disk.append_undisturbed undisturbed, ↓reduceIte]
                  exact inductionHypothesis undisturbed copied
            · rw [if_neg isContent] at copied ⊢
              by_cases isEnd : type = str "OK_READ_END"
              · rw [if_pos isEnd]
                exact ⟨ss, rfl⟩
              · rw [if_neg isEnd] at copied ⊢
                exact inductionHypothesis undisturbed copied

/-! ## Which contents are read as they are -/

/-- A line makes both readers give up. -/
def StopsReader (line : CString) : Prop :=
  TooLong line ∨ firstField line = str "ERR"

/--
One of the lines behind the first makes both readers give up before a line
looks like the end of the reply.
-/
def StopsBeforeEnd (rest : List CString) : Prop :=
  ∃ front bad behind,
    rest = front ++ bad :: behind ∧
      (∀ line ∈ front, firstField line ≠ str "OK_READ_END") ∧
        StopsReader bad

/-- No reader gets to the end of the reply for a content. -/
def Unreadable (content : CString) : Prop :=
  ∃ first rest,
    content.splitOnP (fun c => c = newline) = first :: rest ∧
      (TooLong (contentLine first) ∨ StopsBeforeEnd rest)

/-- A message begins with its first field. -/
theorem messagesOfLines_cons
    (line : CString)
    (rest : List CString) :
    ∃ arguments,
      messagesOfLines (line :: rest) =
          (if TooLong line then []
          else (firstField line :: arguments) :: messagesOfLines rest) ∧
        ∀ field ∈ arguments, ∀ c ∈ field, c ∈ line ∧ c ≠ protocolDelimiter := by
  obtain ⟨arguments, fields⟩ := fieldsOf_eq_cons line
  refine ⟨arguments, by rw [messagesOfLines, fields], ?_⟩
  intro field listed c member
  exact
    of_mem_fieldsOf (fields ▸ List.mem_cons_of_mem (firstField line) listed)
      member

/-- A copy gives up at a line that stops readers. -/
theorem copiedPayload_of_stopsBeforeEnd
    {rest : List CString}
    (stops : StopsBeforeEnd rest)
    (behind : List CString)
    (written : CString) :
    copiedPayload written (messagesOfLines (rest ++ behind)) = none := by
  obtain ⟨front, bad, later, rfl, goesOn, isBad⟩ := stops
  induction front generalizing written with
  | nil =>
      obtain ⟨arguments, messages, _⟩ :=
        messagesOfLines_cons bad (later ++ behind)
      rw [List.nil_append, List.cons_append, messages]
      rcases isBad with long | isError
      · rw [if_pos long]
        rfl
      · split
        · rfl
        · rw [copiedPayload, if_pos isError]
  | cons line front inductionHypothesis =>
      have recursive := fun text =>
        inductionHypothesis text fun other listed =>
          goesOn other (List.mem_cons_of_mem line listed)
      obtain ⟨arguments, messages, _⟩ :=
        messagesOfLines_cons line (front ++ bad :: later ++ behind)
      rw [List.cons_append, List.cons_append, messages]
      split
      · rfl
      · rw [copiedPayload, if_neg (goesOn line List.mem_cons_self), recursive,
          recursive]
        simp

/-- So does the client. -/
theorem clientReceiveReadStream_of_stopsBeforeEnd
    {rest : List CString}
    (stops : StopsBeforeEnd rest)
    (behind : List CString)
    (sawStart : Bool)
    (printed : CString) :
    clientReceiveReadStream sawStart printed
        (messagesOfLines (rest ++ behind)) = none := by
  obtain ⟨front, bad, later, rfl, goesOn, isBad⟩ := stops
  induction front generalizing sawStart printed with
  | nil =>
      obtain ⟨arguments, messages, _⟩ :=
        messagesOfLines_cons bad (later ++ behind)
      rw [List.nil_append, List.cons_append, messages]
      rcases isBad with long | isError
      · rw [if_pos long]
        rfl
      · split
        · rfl
        · rw [clientReceiveReadStream, if_pos isError]
  | cons line front inductionHypothesis =>
      have recursive := fun saw text =>
        inductionHypothesis saw text fun other listed =>
          goesOn other (List.mem_cons_of_mem line listed)
      obtain ⟨arguments, messages, _⟩ :=
        messagesOfLines_cons line (front ++ bad :: later ++ behind)
      rw [List.cons_append, List.cons_append, messages]
      split
      · rfl
      · rw [clientReceiveReadStream,
          if_neg (goesOn line List.mem_cons_self), recursive, recursive]
        simp

/-- Without such a line a copy ends successfully, with a text of one line. -/
theorem copiedPayload_of_not_stopsBeforeEnd
    {rest : List CString}
    (oneLine : ∀ line ∈ rest, newline ∉ line)
    (never : ¬StopsBeforeEnd rest)
    {written : CString}
    (plain : PlainField written) :
    ∃ payload,
      copiedPayload written
          (messagesOfLines (rest ++ [str "OK_READ_END"])) = some payload ∧
        PlainField payload := by
  induction rest generalizing written with
  | nil =>
      refine ⟨written, ?_, plain⟩
      have short : ¬TooLong (str "OK_READ_END") := by decide
      have fields :
          fieldsOf (str "OK_READ_END") = [str "OK_READ_END"] := by decide
      rw [List.nil_append, messagesOfLines, if_neg short, fields]
      rfl
  | cons line rest inductionHypothesis =>
      have goesOn : ¬StopsReader line := fun isBad =>
        never ⟨[], line, rest, rfl, by simp, isBad⟩
      obtain ⟨arguments, messages, fromLine⟩ :=
        messagesOfLines_cons line (rest ++ [str "OK_READ_END"])
      rw [List.cons_append, messages, if_neg fun long => goesOn (Or.inl long),
        copiedPayload, if_neg fun isError => goesOn (Or.inr isError)]
      by_cases isEnd : firstField line = str "OK_READ_END"
      · rw [if_neg (by rw [isEnd]; decide), if_pos isEnd]
        exact ⟨written, rfl, plain⟩
      · have later : ¬StopsBeforeEnd rest := by
          rintro ⟨front, bad, behind, rfl, noEnd, isBad⟩
          refine never ⟨line :: front, bad, behind, rfl, ?_, isBad⟩
          intro other listed
          rcases List.mem_cons.mp listed with rfl | inFront
          · exact isEnd
          · exact noEnd other inFront
        have recursive :=
          @inductionHypothesis
            (fun other listed =>
              oneLine other (List.mem_cons_of_mem line listed)) later
        rw [if_neg isEnd]
        split
        · have chunkPlain : PlainField (arguments.headD []) := by
            cases arguments with
            | nil =>
                exact ⟨by simp, by simp⟩
            | cons chunk others =>
                have chunkFrom := fromLine chunk List.mem_cons_self
                exact ⟨fun member => (chunkFrom _ member).2 rfl,
                  fun member =>
                    oneLine line List.mem_cons_self
                      (chunkFrom _ member).1⟩
          refine recursive ⟨?_, ?_⟩
          · rw [List.mem_append, not_or]
            exact ⟨plain.1, chunkPlain.1⟩
          · rw [List.mem_append, not_or]
            exact ⟨plain.2, chunkPlain.2⟩
        · exact recursive plain

section Reply

variable
  {filename content first : CString}
  {rest : List CString}
  (name : RequestableName filename)
  (lines : content.splitOnP (fun c => c = newline) = first :: rest)

include name lines

/-- What a copy makes of the reply for a content. -/
theorem copiedPayload_readReply :
    copiedPayload [] (receivedMessages (readReply filename content)) =
      if TooLong (contentLine first) then none
      else
        copiedPayload (firstField first)
          (messagesOfLines (rest ++ [str "OK_READ_END"])) := by
  have start :
      str "OK_READ_START" ≠ str "ERR" ∧
        str "OK_READ_START" ≠ str "OK_CONTENT" ∧
          str "OK_READ_START" ≠ str "OK_READ_END" := by decide
  have label : str "OK_CONTENT" ≠ str "ERR" := by decide
  rw [messages_readReply name lines, copiedPayload, if_neg start.1,
    if_neg start.2.1, if_neg start.2.2, replyLines, messagesOfLines]
  split
  · rfl
  · obtain ⟨others, fields⟩ :=
      @fieldsOf_labelled (str "OK_CONTENT") (by decide) first
    rw [contentLine, fields, copiedPayload, if_neg label, if_pos rfl,
      List.headD_cons, List.nil_append]

/-- What the client makes of it. -/
theorem clientReceiveReadStream_readReply :
    clientReceiveReadStream false []
        (receivedMessages (readReply filename content)) =
      if TooLong (contentLine first) then none
      else
        clientReceiveReadStream true (firstField first)
          (messagesOfLines (rest ++ [str "OK_READ_END"])) := by
  have start : str "OK_READ_START" ≠ str "ERR" := by decide
  have label :
      str "OK_CONTENT" ≠ str "ERR" ∧
        str "OK_CONTENT" ≠ str "OK_READ_START" := by decide
  rw [messages_readReply name lines, clientReceiveReadStream, if_neg start,
    if_pos rfl, replyLines, messagesOfLines]
  split
  · rfl
  · obtain ⟨others, fields⟩ :=
      @fieldsOf_labelled (str "OK_CONTENT") (by decide) first
    rw [contentLine, fields, clientReceiveReadStream, if_neg label.1,
      if_neg label.2, if_pos rfl, List.headD_cons, List.nil_append]

end Reply

theorem messagesOfLines_end :
    messagesOfLines [str "OK_READ_END"] = [[str "OK_READ_END"]] := by
  decide

/-- A content of one plain line is read as it is. -/
theorem readFaithful_of_plain
    {content : CString}
    (plain : PlainField content) :
    ReadFaithful content := by
  have oneLine : ∀ c ∈ content, decide (c = newline) = false := by
    intro c member
    rw [decide_eq_false_iff_not]
    rintro rfl
    exact plain.2 member
  have lines := List.splitOnP_eq_singleton oneLine
  have field := firstField_of_plain plain.1
  constructor
  · intro filename payload name read
    rw [clientReceiveReadStream_readReply name lines, List.nil_append,
      messagesOfLines_end, field] at read
    split at read
    · cases read
    · exact (Option.some.inj read).symm
  · intro filename tempPath ss after name created succeeds
    obtain ⟨payload, copied, stored⟩ :=
      @copiedPayload_of_receiveChunks _ _ [] _ _ created succeeds
    rw [copiedPayload_readReply name lines, List.nil_append,
      messagesOfLines_end, field] at copied
    split at copied
    · cases copied
    · rw [stored, ← Option.some.inj copied]

/-- No reader succeeds on a content whose reply cannot be read to its end. -/
theorem readFaithful_of_unreadable
    {content : CString}
    (unreadable : Unreadable content) :
    ReadFaithful content := by
  obtain ⟨first, rest, lines, stops⟩ := unreadable
  constructor
  · intro filename payload name read
    rw [clientReceiveReadStream_readReply name lines] at read
    rcases stops with long | stops
    · rw [if_pos long] at read
      cases read
    · rw [clientReceiveReadStream_of_stopsBeforeEnd stops, ite_self] at read
      cases read
  · intro filename tempPath ss after name created succeeds
    obtain ⟨payload, copied, _⟩ :=
      @copiedPayload_of_receiveChunks _ _ [] _ _ created succeeds
    rw [copiedPayload_readReply name lines] at copied
    rcases stops with long | stops
    · rw [if_pos long] at copied
      cases copied
    · rw [copiedPayload_of_stopsBeforeEnd stops, ite_self] at copied
      cases copied

/-- A server that has just created the temporary file of a copy. -/
def copyingServer : StorageServer :=
  { newServer ⟨[], by decide⟩ with
    disk := Disk.set [] (some []) ⟨fun _ => none, []⟩ }

/-- A content is read as it is exactly if it is plain or cannot be read. -/
theorem readFaithful_iff (content : CString) :
    ReadFaithful content ↔ PlainField content ∨ Unreadable content := by
  constructor
  · intro faithful
    by_cases unreadable : Unreadable content
    · exact Or.inr unreadable
    · obtain ⟨first, rest, lines⟩ :=
        List.exists_cons_of_ne_nil
          (List.splitOnP_ne_nil (fun c => decide (c = newline)) content)
      have oneLine : ∀ line ∈ first :: rest, newline ∉ line := by
        intro line listed member
        rw [← lines] at listed
        exact of_decide_eq_false (of_mem_splitOnP listed member).2 rfl
      have short : ¬TooLong (contentLine first) := fun long =>
        unreadable ⟨first, rest, lines, Or.inl long⟩
      have never : ¬StopsBeforeEnd rest := fun stops =>
        unreadable ⟨first, rest, lines, Or.inr stops⟩
      have firstPlain : PlainField (firstField first) :=
        ⟨not_mem_firstField first, fun member =>
          oneLine first List.mem_cons_self
            ((List.takeWhile_sublist _).subset member)⟩
      obtain ⟨payload, copied, plain⟩ :=
        copiedPayload_of_not_stopsBeforeEnd
          (fun line listed => oneLine line (List.mem_cons_of_mem first listed))
          never firstPlain
      have name : RequestableName (str "a") :=
        ⟨⟨by decide, by decide⟩, by decide⟩
      have whole := copiedPayload_readReply name lines
      rw [if_neg short, copied] at whole
      have created : copyingServer.disk.bytesAt [] = some [] := rfl
      obtain ⟨after, succeeds⟩ :=
        @receiveChunks_undisturbed [] _ _ _ copyingServer rfl whole
      obtain ⟨written, copiedSame, stored⟩ :=
        @copiedPayload_of_receiveChunks _ _ [] _ _ created succeeds
      have arrived :=
        faithful.copy (str "a") [] copyingServer after name created succeeds
      rw [stored] at arrived
      rw [whole] at copiedSame
      have same : payload = content :=
        (Option.some.inj copiedSame).trans
          (rawBytes_injective (Option.some.inj arrived))
      exact Or.inl (same ▸ plain)
  · rintro (plain | unreadable)
    · exact readFaithful_of_plain plain
    · exact readFaithful_of_unreadable unreadable

/--
An edit and a content both cross the wire unaltered or are refused exactly if
the edit has no delimiter, and the content neither delimiter nor line end
unless no reader gets to the end of its reply.
-/
theorem unalteredOrRefused_iff
    {edit : CString}
    (oneLine : newline ∉ edit)
    (short : edit.length < clientBufferSize)
    (content : CString) :
    WriteDelivered edit ∧ ReadFaithful content ↔
      protocolDelimiter ∉ edit ∧
        (PlainField content ∨ Unreadable content) := by
  rw [writeDelivered_iff oneLine short, readFaithful_iff]

/-- A plain edit and a plain content arrive. -/
theorem unalteredOrRefused_plain :
    WriteDelivered (str "new words.") ∧ ReadFaithful (str "One line.") :=
  (unalteredOrRefused_iff (by decide) (by decide) (str "One line.")).mpr
    ⟨by decide, Or.inl ⟨by decide, by decide⟩⟩

/-- An edit with a delimiter is cut, and so is a content of two lines. -/
theorem altered_delimiterAndLineEnd :
    ¬WriteDelivered (str "a|b") ∧ ¬ReadFaithful (str "x\ny") := by
  constructor
  · intro delivered
    have given :=
      delivered 0 (by decide) ⟨by decide, by decide⟩
        [str "WRITE_DATA", str "0", str "a", str "b"] (by decide +kernel)
        editingServer 0 0
        (accepted_editingServer (str "WRITE_DATA") (str "a") [str "b"])
    exact absurd given (by decide)
  · intro faithful
    have copied :
        copiedPayload []
            (receivedMessages (readReply (str "plan.txt") (str "x\ny"))) =
          some (str "x") := by
      decide +kernel
    have name : RequestableName (str "plan.txt") :=
      ⟨⟨by decide, by decide⟩, by decide⟩
    have created : copyingServer.disk.bytesAt [] = some [] := rfl
    obtain ⟨after, succeeds⟩ :=
      @receiveChunks_undisturbed [] _ _ _ copyingServer rfl copied
    have whole :=
      faithful.copy (str "plan.txt") [] copyingServer after name created
        succeeds
    obtain ⟨payload, same, stored⟩ :=
      @copiedPayload_of_receiveChunks _ _ [] _ _ created succeeds
    rw [copied] at same
    rw [stored, ← Option.some.inj same] at whole
    exact absurd whole (by decide)

end DistributedDocs
