import DistributedDocs.ListingReplies
import DistributedDocs.ServerRegistry

namespace DistributedDocs

/-!
# How the client reads replies

A handler of `client.c` reads messages from the connection to the name server
until one of them ends the reply.  It does not know how long the reply is: it
stops at an end it recognises, at an error, or at a message it did not expect.
-/

/-- Where `REQ_LOC` says that a file is. -/
structure Location where
  filename : CString
  ip : CString
  port : Int
  deriving DecidableEq

/-- What a handler has printed, and whether it returns 0. -/
structure HandlerResult where
  printed : List CString
  success : Bool
  location : Option Location
  deriving DecidableEq

/-- A text that is printed with a line break behind it. -/
def printedLine (text : CString) : CString :=
  text ++ [newline]

/-- A handler that gives up. -/
def failedWith (printed : List CString) : HandlerResult :=
  ⟨printed, false, none⟩

/-- A handler that is through. -/
def succeededWith (printed : List CString) : HandlerResult :=
  ⟨printed, true, none⟩

/-- More has been printed before. -/
def HandlerResult.after
    (printed : List CString)
    (result : HandlerResult) : HandlerResult :=
  { result with printed := printed ++ result.printed }

/-! ## Responses -/

/--
`client_read_response` on the bytes that have arrived on an open connection:
none as long as it waits for more, and no message where
`protocol_receive_message` returns NULL because its buffer is full.
-/
def clientReadResponse (socket : CString) :
    Option (Option (List CString) × CString) :=
  if ¬socket.contains newline ∧ ¬TooLong socket then none
  else
    match protocolReceiveMessage socket with
    | some (raw, rest) => some (some (protocolParseMessage raw), rest)
    | none => some (none, socket.drop (maxMessageSize - 1))

theorem length_of_clientReadResponse
    {socket rest : CString}
    {msg : List CString}
    (read : clientReadResponse socket = some (some msg, rest)) :
    rest.length < socket.length := by
  unfold clientReadResponse at read
  split at read
  · cases read
  · split at read
    · next received =>
      obtain ⟨-, rfl⟩ := Prod.mk.inj (Option.some.inj read)
      exact length_of_protocolReceiveMessage received
    · cases read

/-- What a handler does about a response. -/
inductive Reaction (State : Type) where
  | goOn (printed : List CString) (next : State)
  | stop (result : HandlerResult)

/--
The loop of a handler: it waits, gives up with a text when the connection is
lost, or is through with so many bytes left unread.
-/
def readResponses
    {State : Type}
    (lost : List CString)
    (react : State → List CString → Reaction State)
    (state : State)
    (socket : CString) : Option (HandlerResult × CString) :=
  match _read : clientReadResponse socket with
  | none => none
  | some (none, rest) => some (failedWith lost, rest)
  | some (some msg, rest) =>
      match react state msg with
      | .stop result => some (result, rest)
      | .goOn printed next =>
          (readResponses lost react next rest).map fun later =>
            (later.1.after printed, later.2)
termination_by socket.length
decreasing_by exact length_of_clientReadResponse _read

/-- `protocol_is_error` -/
def protocolIsError (msg : List CString) : Bool :=
  msg.head? = some (str "ERR")

/-- `client_print_ns_response` -/
def clientPrintNsResponse (msg : List CString) : CString :=
  if protocolIsError msg then
    printedLine (str "Error: " ++ msg[2]?.getD (str "Unknown error"))
  else
    printedLine (msg[1]?.getD (str "OK"))

/-- The client prints an error and gives up. -/
def failOn (msg : List CString) : HandlerResult :=
  failedWith [clientPrintNsResponse msg]

/-! ## Replies of one message -/

/-- The handlers that read one response. -/
def reactOnce
    (result : List CString → HandlerResult)
    (_ : Unit)
    (msg : List CString) : Reaction Unit :=
  .stop (result msg)

/--
The handlers that print it.  Some of them return -1 for an error, others
return 0 whatever the response is.
-/
def responseResult (reportsErrors : Bool) (msg : List CString) :
    HandlerResult where
  printed := [clientPrintNsResponse msg]
  success := !(reportsErrors && protocolIsError msg)
  location := none

/-- `client_request_location`, once the response is there. -/
def locationResult (msg : List CString) : HandlerResult :=
  if protocolIsError msg then failOn msg
  else
    match msg with
    | type :: filename :: ip :: portField :: _ =>
        let (portVal, rest) := strtol portField
        let port := portVal.bmod (2 ^ 32)
        if type ≠ str "OK_LOC" then
          failedWith
            [printedLine
              (str "Unexpected response from Name Server for REQ_LOC")]
        else if portField = [] ∨ rest ≠ [] then
          failedWith
            [printedLine (str "Invalid port in Name Server response")]
        else if isValidPort port then
          { succeededWith [] with
            location :=
              some
                ⟨safeStrcpy filename maxFilenameLength,
                  safeStrcpy ip maxIpLength, port⟩ }
        else
          failedWith
            [printedLine (str "Out-of-range port in Name Server response")]
    | _ =>
        failedWith
          [printedLine
            (str "Unexpected response from Name Server for REQ_LOC")]

/-! ## Replies with rows -/

/-- A text in a column that is filled up behind it, `%-10s`. -/
def padRight (width : Nat) (text : CString) : CString :=
  text ++ List.replicate (width - text.length) (CChar.ofChar ' ')

/-- A text in a column that is filled up before it, `%5s`. -/
def padLeft (width : Nat) (text : CString) : CString :=
  List.replicate (width - text.length) (CChar.ofChar ' ') ++ text

/-- What `client_handle_view` prints for a row. -/
def viewRowText (requestDetails : Bool) (row : List CString) :
    List CString :=
  match requestDetails, row with
  | true, _ :: filename :: owner :: words :: chars :: lastAccess :: _ =>
      [printedLine
        (str "| " ++ padRight 10 filename ++ str " | " ++ padLeft 5 words ++
          str " | " ++ padLeft 5 chars ++ str " | " ++
          padRight 16 lastAccess ++ str " | " ++
          padRight 5 (if owner = [] then str "N/A" else owner) ++
          str " |")]
  | false, _ :: filename :: _ => [printedLine (str "--> " ++ filename)]
  | _, _ => []

/-- What `client_handle_list` and `client_handle_viewfolder` print for a row. -/
def itemText (row : List CString) : List CString :=
  [printedLine (str " - " ++ row[1]?.getD [])]

/-- What `client_handle_listrequests` prints for a row. -/
def requestText (row : List CString) : List CString :=
  match row with
  | _ :: reqId :: filename :: fromUser :: perm :: _ =>
      [printedLine
        (str "  #" ++ reqId ++ str " " ++ fromUser ++ str " -> " ++
          filename ++ str " (" ++ perm ++ str " access)")]
  | _ => []

/--
The loops over rows: rows of one type with so many fields are printed, other
messages are skipped.  The state tells whether there was a row.
-/
def reactToRows
    (type last : String)
    (count : Nat)
    (rowText : List CString → List CString)
    (footer : Bool → List CString)
    (printedAny : Bool)
    (msg : List CString) : Reaction Bool :=
  if msg.head? = some (str last) then
    .stop (succeededWith (footer printedAny))
  else if msg.head? = some (str type) ∧ count ≤ msg.length then
    .goOn (rowText msg) true
  else if protocolIsError msg then
    .stop (failOn msg)
  else
    .goOn [] printedAny

/-! ## Replies with lines -/

/-- The loop of `client_handle_info`: whether it has started, and the name. -/
def reactToInfo
    (state : Bool × CString)
    (msg : List CString) : Reaction (Bool × CString) :=
  let (infoStarted, displayName) := state
  if protocolIsError msg then
    .stop (failOn msg)
  else if msg.head? = some (str "OK_INFO_START") then
    let name :=
      match msg with
      | _ :: name :: _ =>
          if name = [] then displayName else safeStrcpy name maxFilenameLength
      | _ => displayName
    .goOn
      [printedLine
        (str "---- " ++ (if name = [] then str "File Info" else name) ++
          str " ----")]
      (true, name)
  else if msg.head? = some (str "INFO_LINE") then
    if infoStarted then
      .goOn ((msg[1]?.map printedLine).toList) (infoStarted, displayName)
    else
      .stop
        (failedWith
          [printedLine (str "Unexpected INFO_LINE without INFO_START")])
  else if msg.head? = some (str "OK_INFO_END") then
    if infoStarted then
      .stop (succeededWith [[newline]])
    else
      .stop
        (failedWith
          [printedLine (str "Unexpected INFO_END without INFO_START")])
  else
    .stop
      (failedWith
        [printedLine
          (str "Unexpected response while receiving info: " ++
            msg.headD (str "<unknown>"))])

/-- The loop of `client_handle_exec`: whether it has started. -/
def reactToExec (sawStart : Bool) (msg : List CString) : Reaction Bool :=
  if protocolIsError msg then
    .stop (failOn msg)
  else if msg.head? = some (str "OK_EXEC_START") then
    .goOn [] true
  else if msg.head? = some (str "EXEC_OUT") then
    .goOn ((msg[1]?.map printedLine).toList) sawStart
  else if msg.head? = some (str "OK_EXEC_END") then
    if sawStart then
      .stop (succeededWith [])
    else
      .stop
        (failedWith
          [printedLine
            (str "EXEC sequence missing start acknowledgement.")])
  else
    .stop
      (failedWith
        [printedLine
          (str "Unexpected response from server: " ++
            msg.headD (str "<unknown>"))])

/-! ## Messages that have arrived -/

/-- A message that arrives in one piece, though its fields may not. -/
structure Arrives (fields : List CString) : Prop where
  oneLine : newline ∉ List.intercalate [protocolDelimiter] fields
  short : ¬TooLong (List.intercalate [protocolDelimiter] fields)

/-- The fields a message arrives with. -/
def arrivedFields (fields : List CString) : List CString :=
  fieldsOf (List.intercalate [protocolDelimiter] fields)

theorem Deliverable.arrives
    {fields : List CString}
    (deliverable : Deliverable fields) :
    Arrives fields where
  oneLine member := by
    rcases mem_intercalate member with
      isDelimiter | ⟨field, listed, inField⟩
    · exact absurd isDelimiter (by decide)
    · exact (deliverable.plain field listed).2 inField
  short := deliverable.short

theorem Deliverable.arrivedFields_eq
    {fields : List CString}
    (deliverable : Deliverable fields) :
    arrivedFields fields = fields := by
  rw [arrivedFields, fieldsOf,
    splitOnP_intercalate protocolDelimiter deliverable.nonempty
      (fun field listed => (deliverable.plain field listed).1),
    List.take_of_length_le deliverable.few]

/-- A message is read whole, and nothing behind it. -/
theorem clientReadResponse_message
    {fields : List CString}
    (arrives : Arrives fields)
    (rest : CString) :
    clientReadResponse (protocolBuildMessage fields ++ rest) =
      some (some (arrivedFields fields), rest) := by
  have ended :
      ¬(¬(protocolBuildMessage fields ++ rest).contains newline ∧
        ¬TooLong (protocolBuildMessage fields ++ rest)) := by
    rintro ⟨unended, -⟩
    exact unended (by simp [protocolBuildMessage])
  rw [clientReadResponse, if_neg ended, protocolBuildMessage,
    List.append_assoc, List.singleton_append,
    protocolReceiveMessage_line arrives.oneLine, if_neg arrives.short]
  simp only [protocolParseMessage_line arrives.short, arrivedFields]

/-- What has been read stays read when more arrives. -/
theorem clientReadResponse_append
    {socket rest : CString}
    {msg : Option (List CString)}
    (read : clientReadResponse socket = some (msg, rest))
    (more : CString) :
    clientReadResponse (socket ++ more) = some (msg, rest ++ more) := by
  unfold clientReadResponse at read ⊢
  split at read
  · cases read
  · next ended =>
    have stillEnded :
        ¬(¬(socket ++ more).contains newline ∧
          ¬TooLong (socket ++ more)) := by
      rintro ⟨unended, short⟩
      refine ended ⟨fun found => unended ?_, fun long => short ?_⟩
      · rw [List.contains_iff_mem] at found ⊢
        exact List.mem_append_left _ found
      · rw [TooLong, List.length_append]
        exact Nat.le_add_right_of_le long
    rw [if_neg stillEnded]
    have full :
        TooLong socket →
          (socket ++ more).drop (maxMessageSize - 1) =
            socket.drop (maxMessageSize - 1) ++ more :=
      fun long => List.drop_append_of_le_length long
    by_cases complete : newline ∈ socket
    · obtain ⟨line, others, rfl, oneLine⟩ := List.eq_append_cons_of_mem complete
      rw [protocolReceiveMessage_line oneLine] at read
      rw [List.append_assoc, List.cons_append,
        protocolReceiveMessage_line oneLine]
      split at read
      · next raw later received =>
        split at received
        · cases received
        · next short =>
          obtain ⟨rfl, rfl⟩ := Prod.mk.inj (Option.some.inj received)
          obtain ⟨rfl, rfl⟩ := Prod.mk.inj (Option.some.inj read)
          rw [if_neg short]
      · next received =>
        split at received
        · next long =>
          obtain ⟨rfl, rfl⟩ := Prod.mk.inj (Option.some.inj read)
          rw [if_pos long]
          have longer : TooLong (line ++ newline :: others) := by
            rw [TooLong, List.length_append]
            exact Nat.le_add_right_of_le long
          simpa using full longer
        · cases received
    · have long : TooLong socket := by
        by_contra short
        exact ended ⟨by rwa [List.contains_iff_mem], short⟩
      have nothing := protocolReceiveMessage_full complete long []
      rw [List.append_nil] at nothing
      rw [nothing] at read
      obtain ⟨rfl, rfl⟩ := Prod.mk.inj (Option.some.inj read)
      rw [protocolReceiveMessage_full complete long more, full long]

section Reading

variable
  {State : Type}
  (lost : List CString)
  (react : State → List CString → Reaction State)

/-- One round of the loop. -/
theorem readResponses_eq (state : State) (socket : CString) :
    readResponses lost react state socket =
      match clientReadResponse socket with
      | none => none
      | some (none, rest) => some (failedWith lost, rest)
      | some (some msg, rest) =>
          match react state msg with
          | .stop result => some (result, rest)
          | .goOn printed next =>
              (readResponses lost react next rest).map fun later =>
                (later.1.after printed, later.2) := by
  rw [readResponses]
  split
  · next read => rw [read]
  · next read => rw [read]
  · next read => rw [read]

/-- One round with a message that has arrived. -/
theorem readResponses_message
    (state : State)
    {fields : List CString}
    (arrives : Arrives fields)
    (rest : CString) :
    readResponses lost react state (protocolBuildMessage fields ++ rest) =
      match react state (arrivedFields fields) with
      | .stop result => some (result, rest)
      | .goOn printed next =>
          (readResponses lost react next rest).map fun later =>
            (later.1.after printed, later.2) := by
  rw [readResponses_eq, clientReadResponse_message arrives]

/-- What a loop has read it would have read with more behind it. -/
theorem readResponses_append
    {state : State}
    {socket rest : CString}
    {result : HandlerResult}
    (read : readResponses lost react state socket = some (result, rest))
    (more : CString) :
    readResponses lost react state (socket ++ more) =
      some (result, rest ++ more) := by
  induction length : socket.length using Nat.strong_induction_on
    generalizing state socket rest result with
  | h size inductionHypothesis =>
      subst length
      rw [readResponses_eq] at read ⊢
      cases received : clientReadResponse socket with
      | none =>
          rw [received] at read
          cases read
      | some message =>
          obtain ⟨msg, unread⟩ := message
          rw [clientReadResponse_append received]
          rw [received] at read
          cases msg with
          | none =>
              obtain ⟨rfl, rfl⟩ := Prod.mk.inj (Option.some.inj read)
              rfl
          | some msg =>
              cases reacted : react state msg with
              | stop ended =>
                  simp only [reacted] at read ⊢
                  obtain ⟨rfl, rfl⟩ := Prod.mk.inj (Option.some.inj read)
                  rfl
              | goOn printed next =>
                  simp only [reacted] at read ⊢
                  obtain ⟨⟨later, left⟩, readLater, same⟩ :=
                    Option.map_eq_some_iff.mp read
                  obtain ⟨rfl, rfl⟩ := Prod.mk.inj same
                  have shorter := length_of_clientReadResponse received
                  rw [inductionHypothesis _ shorter readLater rfl]
                  rfl

/-- Messages that leave the loop as it is are printed one after the other. -/
theorem readResponses_lines
    {state : State}
    {messages : List (List CString)}
    {text : List CString → List CString}
    (arrive : ∀ fields ∈ messages, Arrives fields)
    (goesOn : ∀ fields ∈ messages,
      react state (arrivedFields fields) = .goOn (text fields) state)
    (rest : CString) :
    readResponses lost react state
        (messages.flatMap protocolBuildMessage ++ rest) =
      (readResponses lost react state rest).map fun later =>
        (later.1.after (messages.flatMap text), later.2) := by
  induction messages with
  | nil =>
      simp [HandlerResult.after]
  | cons fields others inductionHypothesis =>
      rw [List.forall_mem_cons] at arrive goesOn
      rw [List.flatMap_cons, List.append_assoc,
        readResponses_message lost react state arrive.1, goesOn.1]
      simp only
      rw [inductionHypothesis arrive.2 goesOn.2, Option.map_map]
      congr 1
      funext later
      simp [HandlerResult.after]

/-- The message that ends the loop is the last that is read. -/
theorem readResponses_last
    {state : State}
    {fields : List CString}
    (arrives : Arrives fields)
    {result : HandlerResult}
    (stops : react state (arrivedFields fields) = .stop result)
    (rest : CString) :
    readResponses lost react state (protocolBuildMessage fields ++ rest) =
      some (result, rest) := by
  rw [readResponses_message lost react state arrives, stops]

end Reading

/-! ## What a reply says -/

/-- What the name server replies: an error, or the messages it sends. -/
abbrev NsReply :=
  Except Refusal (List (List CString))

/-- The messages of a reply. -/
def messagesOf : NsReply → List (List CString)
  | .ok messages => messages
  | .error refusal => [refusal.fields]

/-- The bytes of a reply. -/
def sentBytes (reply : NsReply) : CString :=
  (messagesOf reply).flatMap protocolBuildMessage

/-- What an error or a single message says. -/
def shownOnce
    (result : List CString → HandlerResult)
    (reply : NsReply) : HandlerResult :=
  result ((messagesOf reply).headD [])

/-- What a stream of rows says: a text for each row, and one for the end. -/
def shownRows
    (rowText : List CString → List CString)
    (footer : Bool → List CString) : NsReply → HandlerResult
  | .error refusal =>
      failOn refusal.fields
  | .ok messages =>
      succeededWith
        (messages.dropLast.flatMap rowText ++
          footer (messages.dropLast ≠ []))

/-- The text of a message of `INFO`. -/
def infoText : List CString → List CString
  | [type, text] =>
      if type = str "OK_INFO_START" then
        [printedLine (str "---- " ++ text ++ str " ----")]
      else
        [printedLine text]
  | _ =>
      [[newline]]

/-- The text of a message of `EXEC`; a line is cut at its first delimiter. -/
def execText : List CString → List CString
  | [_, line] =>
      [printedLine (firstField line)]
  | _ =>
      []

/-- What a stream of lines says. -/
def shownLines (text : List CString → List CString) : NsReply → HandlerResult
  | .error refusal =>
      failOn refusal.fields
  | .ok messages =>
      succeededWith (messages.flatMap text)

/-! ## Every reader reads its reply -/

section Readers

variable
  (lost : List CString)
  (rest : CString)

theorem protocolIsError_fields (refusal : Refusal) :
    protocolIsError refusal.fields = true := by
  simp [protocolIsError, Refusal.fields]

/-- An error ends every stream. -/
theorem readResponses_refusal
    {State : Type}
    {react : State → List CString → Reaction State}
    {state : State}
    {refusal : Refusal}
    (plain : refusal.Plain)
    (stops : react state refusal.fields = .stop (failOn refusal.fields)) :
    readResponses lost react state (sentBytes (.error refusal) ++ rest) =
      some (failOn refusal.fields, rest) := by
  have deliverable := plain.deliverable
  rw [sentBytes, messagesOf, List.flatMap_singleton]
  exact readResponses_last lost react deliverable.arrives
    (by rw [deliverable.arrivedFields_eq, stops]) rest

/-- A single message is read and shown. -/
theorem readResponses_once
    (result : List CString → HandlerResult)
    {reply : NsReply}
    {fields : List CString}
    (single : messagesOf reply = [fields])
    (deliverable : Deliverable fields) :
    readResponses lost (reactOnce result) () (sentBytes reply ++ rest) =
      some (shownOnce result reply, rest) := by
  rw [sentBytes, shownOnce, single, List.flatMap_singleton]
  refine readResponses_last lost _ deliverable.arrives ?_ rest
  rw [deliverable.arrivedFields_eq]
  rfl

/-- A stream of rows is read to its end. -/
theorem readResponses_rowStream
    {type last : String}
    {count : Nat}
    {messages : List (List CString)}
    (rowText : List CString → List CString)
    (footer : Bool → List CString)
    (stream : RowStream type last count messages)
    (lastFits : FitsField (str last))
    (apart : str type ≠ str last) :
    readResponses lost (reactToRows type last count rowText footer) false
        (sentBytes (.ok messages) ++ rest) =
      some (shownRows rowText footer (.ok messages), rest) := by
  obtain ⟨rows, rfl, isRow⟩ := stream
  have ends :
      ∀ printedAny,
        readResponses lost (reactToRows type last count rowText footer)
            printedAny (protocolBuildMessage [str last] ++ rest) =
          some (succeededWith (footer printedAny), rest) := by
    intro printedAny
    have deliverable : Deliverable [str last] :=
      deliverable_of_fits (List.cons_ne_nil _ _) (by simp)
        (by simpa using lastFits)
    refine readResponses_last lost _ deliverable.arrives ?_ rest
    rw [deliverable.arrivedFields_eq, reactToRows]
    exact if_pos rfl
  have goesOn :
      ∀ printedAny, ∀ fields ∈ rows,
        reactToRows type last count rowText footer printedAny
            (arrivedFields fields) =
          .goOn (rowText fields) true := by
    intro printedAny fields listed
    have row := isRow fields listed
    rw [row.deliverable.arrivedFields_eq, reactToRows, row.typed,
      if_neg (fun same => apart (Option.some.inj same)),
      if_pos ⟨rfl, row.complete⟩]
  have arrive : ∀ fields ∈ rows, Arrives fields :=
    fun fields listed => (isRow fields listed).deliverable.arrives
  simp only [sentBytes, messagesOf, shownRows, List.dropLast_concat,
    List.flatMap_append, List.flatMap_singleton, List.append_assoc]
  cases rows with
  | nil =>
      simpa using ends false
  | cons fields others =>
      rw [List.forall_mem_cons] at arrive
      rw [List.flatMap_cons, List.append_assoc,
        readResponses_message lost _ false arrive.1,
        goesOn false fields List.mem_cons_self]
      simp only
      rw [readResponses_lines lost _ arrive.2
        (fun row listed => goesOn true row (List.mem_cons_of_mem _ listed)),
        ends true]
      simp [HandlerResult.after, succeededWith]

/-- Two fields that fit make a message. -/
theorem deliverable_pair
    {type text : CString}
    (typeFits : FitsField type)
    (textFits : FitsField text) :
    Deliverable [type, text] := by
  refine deliverable_of_fits (List.cons_ne_nil _ _) (by simp) ?_
  simp only [List.forall_mem_cons, List.not_mem_nil, false_implies,
    implies_true, and_true]
  exact ⟨typeFits, textFits⟩

theorem deliverable_single
    {type : CString}
    (typeFits : FitsField type) :
    Deliverable [type] :=
  deliverable_of_fits (List.cons_ne_nil _ _) (by simp)
    (by simpa using typeFits)

/-- A stream with a start, lines that leave the loop as it is, and an end. -/
theorem readResponses_framed
    {State : Type}
    {react : State → List CString → Reaction State}
    {idle : State}
    (started : State)
    {start finish : List CString}
    {lines : List (List CString)}
    {text : List CString → List CString}
    (startArrives : Arrives start)
    (starts : react idle (arrivedFields start) = .goOn (text start) started)
    (linesArrive : ∀ fields ∈ lines, Arrives fields)
    (goesOn : ∀ fields ∈ lines,
      react started (arrivedFields fields) = .goOn (text fields) started)
    (finishArrives : Arrives finish)
    (finishes :
      react started (arrivedFields finish) =
        .stop (succeededWith (text finish))) :
    readResponses lost react idle
        (sentBytes (.ok (start :: lines ++ [finish])) ++ rest) =
      some (shownLines text (.ok (start :: lines ++ [finish])), rest) := by
  simp only [sentBytes, messagesOf, shownLines, List.flatMap_append,
    List.flatMap_cons, List.flatMap_nil, List.append_nil, List.append_assoc,
    List.cons_append]
  rw [readResponses_message lost react idle startArrives, starts]
  simp only
  rw [readResponses_lines lost react linesArrive goesOn,
    readResponses_last lost react finishArrives finishes]
  simp [HandlerResult.after, succeededWith]

/-- The stream of `INFO` is read to its end. -/
theorem readResponses_infoStream
    {messages : List (List CString)}
    (stream : InfoStream messages)
    (displayName : CString) :
    readResponses lost reactToInfo (false, displayName)
        (sentBytes (.ok messages) ++ rest) =
      some (shownLines infoText (.ok messages), rest) := by
  obtain ⟨name, lines, rfl, ⟨plainName, nonempty, nameShort⟩, fits⟩ := stream
  have whole : safeStrcpy name maxFilenameLength = name :=
    safeStrcpy_of_short nameShort
  have start : Deliverable [str "OK_INFO_START", name] := by
    refine deliverable_pair (by decide) ⟨plainName, ?_⟩
    rw [maxFilenameLength] at nameShort
    rw [maxFieldSize]
    omega
  have finish : Deliverable [str "OK_INFO_END"] :=
    deliverable_single (by decide)
  have lineArrives :
      ∀ line ∈ lines, Deliverable [str "INFO_LINE", line] :=
    fun line listed => deliverable_pair (by decide) (fits line listed)
  have startType : str "OK_INFO_START" ≠ str "ERR" := by decide
  have lineType :
      str "INFO_LINE" ≠ str "ERR" ∧
        str "INFO_LINE" ≠ str "OK_INFO_START" := by
    decide
  refine readResponses_framed lost rest (true, name) start.arrives ?_ ?_ ?_
    finish.arrives ?_
  · rw [start.arrivedFields_eq]
    simp [reactToInfo, protocolIsError, infoText, startType, whole, nonempty]
  · intro fields member
    obtain ⟨line, listed, rfl⟩ := List.mem_map.mp member
    exact (lineArrives line listed).arrives
  · intro fields member
    obtain ⟨line, listed, rfl⟩ := List.mem_map.mp member
    rw [(lineArrives line listed).arrivedFields_eq]
    simp [reactToInfo, protocolIsError, infoText, lineType.1, lineType.2]
  · rw [finish.arrivedFields_eq]
    rfl

/-- A line arrives, though only up to its first delimiter as a field. -/
theorem arrives_execLine
    {line : CString}
    (oneLine : newline ∉ line)
    (short : line.length ≤ maxFieldSize) :
    Arrives [str "EXEC_OUT", line] ∧
      ∃ others,
        arrivedFields [str "EXEC_OUT", line] =
          str "EXEC_OUT" :: firstField line :: others := by
  have joined :
      List.intercalate [protocolDelimiter] [str "EXEC_OUT", line] =
        str "EXEC_OUT" ++ protocolDelimiter :: line := by
    simp
  refine ⟨⟨?_, ?_⟩, ?_⟩
  · rw [joined, List.mem_append, List.mem_cons, not_or, not_or]
    exact ⟨by decide, by decide, oneLine⟩
  · have label : (str "EXEC_OUT").length = 8 := by decide
    rw [joined, TooLong, List.length_append, List.length_cons]
    rw [maxFieldSize] at short
    rw [maxMessageSize]
    omega
  · rw [arrivedFields, joined]
    exact fieldsOf_labelled (by decide) line

/-- The stream of `EXEC` is read to its end. -/
theorem readResponses_execStream
    {messages : List (List CString)}
    (stream : ExecStream messages) :
    readResponses lost reactToExec false (sentBytes (.ok messages) ++ rest) =
      some (shownLines execText (.ok messages), rest) := by
  obtain ⟨lines, rfl, fits⟩ := stream
  have start : Deliverable [str "OK_EXEC_START"] :=
    deliverable_single (by decide)
  have finish : Deliverable [str "OK_EXEC_END"] :=
    deliverable_single (by decide)
  have lineType :
      str "EXEC_OUT" ≠ str "ERR" ∧
        str "EXEC_OUT" ≠ str "OK_EXEC_START" := by
    decide
  refine readResponses_framed lost rest true start.arrives ?_ ?_ ?_
    finish.arrives ?_
  · rw [start.arrivedFields_eq]
    rfl
  · intro fields member
    obtain ⟨line, listed, rfl⟩ := List.mem_map.mp member
    obtain ⟨oneLine, short⟩ := fits line listed
    exact (arrives_execLine oneLine short).1
  · intro fields member
    obtain ⟨line, listed, rfl⟩ := List.mem_map.mp member
    obtain ⟨oneLine, short⟩ := fits line listed
    obtain ⟨others, arrived⟩ := (arrives_execLine oneLine short).2
    rw [arrived]
    simp [reactToExec, protocolIsError, execText, lineType.1, lineType.2]
  · rw [finish.arrivedFields_eq]
    rfl

end Readers

end DistributedDocs
