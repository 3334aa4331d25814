import DistributedDocs.ClientReaders
import DistributedDocs.TextTransfer

namespace DistributedDocs

/-!
# The commands of the client

`client_process_command` takes a line apart and calls a handler.  The handler
checks its arguments, sends one message to the name server and reads the reply.
Commands that need a storage server first ask where the file is.
-/

/-- What is asked of a storage server once the file has been located. -/
inductive StorageUse where
  | read
  | write (sentenceIndex : Int)
  | undo
  | stream
  | checkpoint (tag : CString)
  | revert (tag : CString)
  | viewCheckpoint (tag : CString)
  | listCheckpoints
  deriving DecidableEq

/-- The operation in the `REQ_LOC` request. -/
def StorageUse.operation : StorageUse → CString
  | .read => str "READ"
  | .write _ | .undo => str "WRITE"
  | .stream => str "STREAM"
  | .checkpoint _ => str "CHECKPOINT"
  | .revert _ => str "REVERT"
  | .viewCheckpoint _ => str "VIEWCHECKPOINT"
  | .listCheckpoints => str "LISTCHECKPOINTS"

/-- A handler of `client.c` with its arguments. -/
inductive TypedCommand where
  | view (flags : CString)
  | list
  | addAccess (permFlag filename username : CString)
  | remAccess (filename username : CString)
  | requestAccess (filename permission : CString)
  | listRequests
  | approveAccess (requestId : Int)
  | rejectAccess (requestId : Int)
  | create (filename : CString)
  | delete (filename : CString)
  | createFolder (path : CString)
  | move (source destination : CString)
  | viewFolder (path : CString)
  | copy (src dest : CString)
  | info (filename : CString)
  | exec (filename : CString)
  | onStorage (use : StorageUse) (filename : CString)
  deriving DecidableEq

/-! ## Taking a line apart -/

/-- `%Ns` of `sscanf`: a word, and what is left behind it. -/
def scanWord (width : Nat) (input : CString) : Option (CString × CString) :=
  let unspaced := input.dropWhile isspace
  let word := (unspaced.takeWhile fun c => !isspace c).take width
  if word = [] then none else some (word, unspaced.drop word.length)

/-- Several `%Ns`, all of which have to be there. -/
def scanWords : List Nat → CString → Option (List CString)
  | [], _ =>
      some []
  | width :: widths, input =>
      match scanWord width input with
      | none => none
      | some (word, rest) => (scanWords widths rest).map (word :: ·)

/-- `%d` converts as `atoi` does, but nothing where there is no digit. -/
def scanInt (input : CString) : Option Int :=
  if (strtol input).2 = input then none else some (atoi input)

/-- The flags behind the first blank of a `VIEW` line. -/
def viewFlags (input : CString) : CString :=
  let behind := (input.dropWhile fun c => c ≠ CChar.ofChar ' ').drop 1
  trimString (behind.dropWhile fun c => c = CChar.ofChar ' ')

/-- The usage of a command is printed, and -1 returned. -/
def usage (text : String) : Except (List CString) TypedCommand :=
  .error [printedLine (str "Usage: " ++ str text)]

/-- A command with a file or a path. -/
def withFilename
    (arguments : CString)
    (text : String)
    (command : CString → TypedCommand) :
    Except (List CString) TypedCommand :=
  match scanWords [511] arguments with
  | some [filename] => .ok (command filename)
  | _ => usage text

/-- A command with two words. -/
def withWords
    (arguments : CString)
    (firstWidth secondWidth : Nat)
    (text : String)
    (command : CString → CString → TypedCommand) :
    Except (List CString) TypedCommand :=
  match scanWords [firstWidth, secondWidth] arguments with
  | some [first, second] => .ok (command first second)
  | _ => usage text

/-- A command with the number of a request. -/
def withRequestId
    (arguments : CString)
    (text : String)
    (command : Int → TypedCommand) :
    Except (List CString) TypedCommand :=
  match scanInt arguments with
  | some requestId =>
      if requestId ≤ 0 then
        .error [printedLine (str "Request ID must be a positive integer.")]
      else
        .ok (command requestId)
  | none => usage text

/-- The line of a `WRITE` command. -/
def withSentence (arguments : CString) : Except (List CString) TypedCommand :=
  match scanWord 511 arguments with
  | some (filename, rest) =>
      match scanInt rest with
      | some sentenceIndex =>
          if sentenceIndex < 0 then
            .error
              [printedLine
                (str "Sentence index must be a non-negative integer.")]
          else
            .ok (.onStorage (.write sentenceIndex) filename)
      | none => usage "WRITE <filename> <sentence_index>"
  | none => usage "WRITE <filename> <sentence_index>"

/-- `client_process_command`, up to the call of the handler. -/
def clientProcessCommand (input : CString) :
    Except (List CString) TypedCommand :=
  match scanWord input.length input with
  | none => .error []
  | some (command, arguments) =>
      let isCommand (name : String) : Bool := strcasecmpEq command (str name)
      if isCommand "VIEW" then .ok (.view (viewFlags input))
      else if isCommand "READ" then
        withFilename arguments "READ <filename>" (.onStorage .read)
      else if isCommand "CREATE" then
        withFilename arguments "CREATE <filename>" .create
      else if isCommand "WRITE" then withSentence arguments
      else if isCommand "UNDO" then
        withFilename arguments "UNDO <filename>" (.onStorage .undo)
      else if isCommand "INFO" then
        withFilename arguments "INFO <filename>" .info
      else if isCommand "DELETE" then
        withFilename arguments "DELETE <filename>" .delete
      else if isCommand "COPY" then
        withWords arguments 511 511 "COPY <source_filename> <dest_filename>"
          .copy
      else if isCommand "STREAM" then
        withFilename arguments "STREAM <filename>" (.onStorage .stream)
      else if isCommand "LIST" then .ok .list
      else if isCommand "REQUESTACCESS" then
        withWords arguments 511 15 "REQUESTACCESS <filename> <R|W|RW>"
          .requestAccess
      else if isCommand "LISTREQUESTS" then .ok .listRequests
      else if isCommand "ADDACCESS" then
        match scanWords [15, 511, 255] arguments with
        | some [perm, filename, target] =>
            .ok (.addAccess perm filename target)
        | _ => usage "ADDACCESS -R|-W <filename> <username>"
      else if isCommand "REMACCESS" then
        withWords arguments 511 255 "REMACCESS <filename> <username>"
          .remAccess
      else if isCommand "APPROVEACCESS" then
        withRequestId arguments "APPROVEACCESS <request_id>" .approveAccess
      else if isCommand "REJECTACCESS" then
        withRequestId arguments "REJECTACCESS <request_id>" .rejectAccess
      else if isCommand "EXEC" then
        withFilename arguments "EXEC <filename>" .exec
      else if isCommand "CREATEFOLDER" then
        withFilename arguments "CREATEFOLDER <path>" .createFolder
      else if isCommand "MOVE" then
        withWords arguments 511 511 "MOVE <source_path> <destination_folder>"
          .move
      else if isCommand "VIEWFOLDER" then
        withFilename arguments "VIEWFOLDER <path>" .viewFolder
      else if isCommand "CHECKPOINT" then
        withWords arguments 511 127 "CHECKPOINT <filename> <tag>"
          fun filename tag => .onStorage (.checkpoint tag) filename
      else if isCommand "VIEWCHECKPOINT" then
        withWords arguments 511 127 "VIEWCHECKPOINT <filename> <tag>"
          fun filename tag => .onStorage (.viewCheckpoint tag) filename
      else if isCommand "REVERT" then
        withWords arguments 511 127 "REVERT <filename> <tag>"
          fun filename tag => .onStorage (.revert tag) filename
      else if isCommand "LISTCHECKPOINTS" then
        withFilename arguments "LISTCHECKPOINTS <filename>"
          (.onStorage .listCheckpoints)
      else
        .error [printedLine (str "Unknown command: " ++ command)]

/-! ## What is sent -/

/-- A check of a handler, and the text it prints if it fails. -/
def checkInput
    (condition : Bool)
    (text : String) : Except (List CString) Unit :=
  if condition then .ok () else .error [printedLine (str text)]

/-- The permission `client_handle_addaccess` sends. -/
def permissionToSend (permFlag : CString) : CString :=
  match permFlag with
  | c :: rest =>
      if c = CChar.ofChar '-' ∧ rest ≠ [] then rest else permFlag
  | [] => permFlag

/-- The letters of a permission in upper case; none for any other letter. -/
def permLetter (c : CChar) : Option CChar :=
  if c = CChar.ofChar 'r' ∨ c = CChar.ofChar 'R' then some (CChar.ofChar 'R')
  else if c = CChar.ofChar 'w' ∨ c = CChar.ofChar 'W' then
    some (CChar.ofChar 'W')
  else none

/-- The checks of the handlers that go to a storage server. -/
def StorageUse.check : StorageUse → Except (List CString) Unit
  | .write sentenceIndex =>
      checkInput (0 ≤ sentenceIndex)
        "Sentence index must be a non-negative integer."
  | .checkpoint tag | .revert tag | .viewCheckpoint tag =>
      checkInput (tag ≠ []) "Checkpoint tag cannot be empty."
  | .read | .undo | .stream | .listCheckpoints => .ok ()

/-- The message a handler sends, or what it prints instead. -/
def TypedCommand.request :
    TypedCommand → Except (List CString) (List CString)
  | .view flags =>
      match parseViewFlags false false flags with
      | none =>
          .error [printedLine (str "Invalid VIEW flag. Use -a, -l, or -al.")]
      | some _ =>
          .ok (if flags = [] then [str "VIEW"] else [str "VIEW", flags])
  | .list => .ok [str "LIST_USERS"]
  | .addAccess permFlag filename username =>
      .ok [str "ADDACCESS", filename, username, permissionToSend permFlag]
  | .remAccess filename username => .ok [str "REMACCESS", filename, username]
  | .requestAccess filename permission => do
      checkInput (validateFilename filename) "Invalid filename."
      let permToken :=
        (safeStrcpy permission 16).dropWhile fun c => c = CChar.ofChar '-'
      match permToken.mapM permLetter with
      | none =>
          .error [printedLine (str "Permission must contain only R or W.")]
      | some token =>
          checkInput (token ≠ []) "Permission flag must include R or W."
          return [str "REQUESTACCESS", filename, token]
  | .listRequests => .ok [str "LISTREQUESTS"]
  | .approveAccess requestId => do
      checkInput (0 < requestId) "Request ID must be positive."
      return [str "APPROVEACCESS", snprintf 16 (decimal requestId)]
  | .rejectAccess requestId => do
      checkInput (0 < requestId) "Request ID must be positive."
      return [str "REJECTACCESS", snprintf 16 (decimal requestId)]
  | .create filename => do
      checkInput (validateFilename filename) "Invalid filename."
      return [str "CREATE", filename]
  | .delete filename => do
      checkInput (validateFilename filename) "Invalid filename."
      return [str "DELETE", filename]
  | .createFolder path => do
      checkInput (path ≠ []) "Folder path cannot be empty."
      return [str "CREATEFOLDER", path]
  | .move source destination => do
      checkInput (source ≠ [] && destination ≠ [])
        "Source and destination paths cannot be empty."
      return [str "MOVE", source, destination]
  | .viewFolder path => do
      checkInput (path ≠ []) "Folder path cannot be empty."
      return [str "VIEWFOLDER", path]
  | .copy src dest => do
      checkInput (validateFilename src && validateFilename dest)
        "Invalid filename(s)."
      return [str "COPY", src, dest]
  | .info filename => do
      checkInput (validateFilename filename) "Invalid filename."
      return [str "INFO", filename]
  | .exec filename => do
      checkInput (validateFilename filename) "Invalid filename."
      return [str "EXEC", filename]
  | .onStorage use filename => do
      checkInput (validateFilename filename) "Invalid filename."
      use.check
      return [str "REQ_LOC", use.operation, filename]

/-! ## How the reply is read -/

/-- What `client_handle_view` prints before it reads. -/
def viewHeader (requestDetails : Bool) : List CString :=
  if requestDetails then
    [printedLine
        (str "---------------------------------------------------------"),
      printedLine
        (str "|  Filename  | Words | Chars | Last Access Time | Owner |"),
      printedLine
        (str "|------------|-------|-------|------------------|-------|")]
  else
    []

/-- What `client_handle_view` prints at the end. -/
def viewFooter (requestDetails : Bool) (_ : Bool) : List CString :=
  if requestDetails then
    [printedLine
      (str "---------------------------------------------------------")]
  else
    []

/-- What is printed at the end if there was no row. -/
def emptyNote (text : String) (printedAny : Bool) : List CString :=
  if printedAny then [] else [printedLine (str text)]

/-- The handler waits for one response. -/
def noResponse (command : String) : List CString :=
  [printedLine (str "No response from Name Server for " ++ str command)]

/-- The details `client_handle_view` has been asked for. -/
def wantsDetails (flags : CString) : Bool :=
  (parseViewFlags false false flags).any Prod.snd

/-- A handler with the bytes that have arrived, once the request is sent. -/
def TypedCommand.read (command : TypedCommand) (socket : CString) :
    Option (HandlerResult × CString) :=
  let once (name : String) (reportsErrors : Bool) :=
    readResponses (noResponse name) (reactOnce (responseResult reportsErrors))
      () socket
  match command with
  | .view flags =>
      (readResponses
          [printedLine (str "Connection lost while viewing files")]
          (reactToRows "OK_VIEW_L" "OK_VIEW_END" 2
            (viewRowText (wantsDetails flags))
            (viewFooter (wantsDetails flags)))
          false socket).map fun read =>
        (read.1.after (viewHeader (wantsDetails flags)), read.2)
  | .list =>
      (readResponses
          [printedLine (str "Connection lost while listing users")]
          (reactToRows "OK_LIST" "OK_LIST_END" 2 itemText fun _ => [])
          false socket).map fun read =>
        (read.1.after [printedLine (str "Users:")], read.2)
  | .addAccess _ _ _ => once "ADDACCESS" false
  | .remAccess _ _ => once "REMACCESS" false
  | .requestAccess _ _ => once "REQUESTACCESS" false
  | .listRequests =>
      readResponses
        [printedLine (str "Connection lost while listing requests")]
        (reactToRows "OK_REQUEST_LIST" "OK_REQUEST_LIST_END" 5 requestText
          (emptyNote "No pending access requests."))
        false socket
  | .approveAccess _ => once "APPROVEACCESS" false
  | .rejectAccess _ => once "REJECTACCESS" false
  | .create _ => once "CREATE" true
  | .delete _ => once "DELETE" true
  | .createFolder _ => once "CREATEFOLDER" true
  | .move _ _ => once "MOVE" true
  | .viewFolder _ =>
      readResponses
        [printedLine (str "Connection lost while viewing folder")]
        (reactToRows "OK_VIEWFOLDER" "OK_VIEWFOLDER_END" 2 itemText
          (emptyNote "(Folder is empty)"))
        false socket
  | .copy _ _ => once "COPY" true
  | .info filename =>
      readResponses
        [printedLine (str "Connection lost while receiving info")]
        reactToInfo (false, safeStrcpy filename maxFilenameLength) socket
  | .exec _ =>
      readResponses [printedLine (str "Connection lost during EXEC.")]
        reactToExec false socket
  | .onStorage _ _ =>
      readResponses (noResponse "REQ_LOC") (reactOnce locationResult) ()
        socket

/-- What the reply to a command says to its user. -/
def TypedCommand.shown (command : TypedCommand) (reply : NsReply) :
    HandlerResult :=
  match command with
  | .view flags =>
      (shownRows (viewRowText (wantsDetails flags))
          (viewFooter (wantsDetails flags)) reply).after
        (viewHeader (wantsDetails flags))
  | .list =>
      (shownRows itemText (fun _ => []) reply).after
        [printedLine (str "Users:")]
  | .listRequests =>
      shownRows requestText (emptyNote "No pending access requests.") reply
  | .viewFolder _ =>
      shownRows itemText (emptyNote "(Folder is empty)") reply
  | .info _ => shownLines infoText reply
  | .exec _ => shownLines execText reply
  | .addAccess _ _ _ | .remAccess _ _ | .requestAccess _ _
  | .approveAccess _ | .rejectAccess _ =>
      shownOnce (responseResult false) reply
  | .create _ | .delete _ | .createFolder _ | .move _ _ | .copy _ _ =>
      shownOnce (responseResult true) reply
  | .onStorage _ _ => shownOnce locationResult reply

/-! ## Every handler reads its reply -/

/-- The messages a command waits for. -/
def TypedCommand.Stream (command : TypedCommand) :
    List (List CString) → Prop :=
  match command with
  | .view _ => RowStream "OK_VIEW_L" "OK_VIEW_END" 2
  | .list => RowStream "OK_LIST" "OK_LIST_END" 2
  | .listRequests => RowStream "OK_REQUEST_LIST" "OK_REQUEST_LIST_END" 5
  | .viewFolder _ => RowStream "OK_VIEWFOLDER" "OK_VIEWFOLDER_END" 2
  | .info _ => InfoStream
  | .exec _ => ExecStream
  | .addAccess _ _ _ | .remAccess _ _ | .requestAccess _ _
  | .approveAccess _ | .rejectAccess _ | .create _ | .delete _
  | .createFolder _ | .move _ _ | .copy _ _ | .onStorage _ _ =>
      fun messages => ∃ fields, messages = [fields] ∧ Deliverable fields

/-- A reply of such messages, or an error. -/
def ReplyOf (stream : List (List CString) → Prop) : NsReply → Prop
  | .error refusal => refusal.Plain
  | .ok messages => stream messages

section Replies

variable
  (lost : List CString)
  {reply : NsReply}
  (rest : CString)

theorem readResponses_rows
    {type last : String}
    {count : Nat}
    (rowText : List CString → List CString)
    (footer : Bool → List CString)
    (lastFits : FitsField (str last))
    (apart : str type ≠ str last)
    (noError : str "ERR" ≠ str type ∧ str "ERR" ≠ str last)
    (replied : ReplyOf (RowStream type last count) reply) :
    readResponses lost (reactToRows type last count rowText footer) false
        (sentBytes reply ++ rest) =
      some (shownRows rowText footer reply, rest) := by
  cases reply with
  | error refusal =>
      refine readResponses_refusal lost rest replied ?_
      simp [reactToRows, Refusal.fields, protocolIsError, noError.1, noError.2]
  | ok messages =>
      exact readResponses_rowStream lost rest rowText footer replied lastFits
        apart

theorem readResponses_info
    (replied : ReplyOf InfoStream reply)
    (displayName : CString) :
    readResponses lost reactToInfo (false, displayName)
        (sentBytes reply ++ rest) =
      some (shownLines infoText reply, rest) := by
  cases reply with
  | error refusal =>
      refine readResponses_refusal lost rest replied ?_
      simp [reactToInfo, protocolIsError_fields]
  | ok messages =>
      exact readResponses_infoStream lost rest replied displayName

theorem readResponses_exec (replied : ReplyOf ExecStream reply) :
    readResponses lost reactToExec false (sentBytes reply ++ rest) =
      some (shownLines execText reply, rest) := by
  cases reply with
  | error refusal =>
      refine readResponses_refusal lost rest replied ?_
      simp [reactToExec, protocolIsError_fields]
  | ok messages =>
      exact readResponses_execStream lost rest replied

theorem readResponses_single
    (result : List CString → HandlerResult)
    (replied :
      ReplyOf (fun messages => ∃ fields,
        messages = [fields] ∧ Deliverable fields) reply) :
    readResponses lost (reactOnce result) () (sentBytes reply ++ rest) =
      some (shownOnce result reply, rest) := by
  cases reply with
  | error refusal =>
      exact readResponses_once lost rest result rfl replied.deliverable
  | ok messages =>
      obtain ⟨fields, rfl, deliverable⟩ := replied
      exact readResponses_once lost rest result rfl deliverable

/-- A handler that finds its reply reads all of it and nothing behind it. -/
theorem TypedCommand.read_reply
    {command : TypedCommand}
    (replied : ReplyOf command.Stream reply) :
    command.read (sentBytes reply ++ rest) =
      some (command.shown reply, rest) := by
  cases command with
  | view flags =>
      have read :=
        readResponses_rows
          [printedLine (str "Connection lost while viewing files")] rest
          (viewRowText (wantsDetails flags))
          (viewFooter (wantsDetails flags)) (by decide) (by decide)
          (by decide) replied
      simp [TypedCommand.read, TypedCommand.shown, read]
  | list =>
      have read :=
        readResponses_rows
          [printedLine (str "Connection lost while listing users")] rest
          itemText (fun _ => []) (by decide) (by decide) (by decide) replied
      simp [TypedCommand.read, TypedCommand.shown, read]
  | listRequests =>
      exact readResponses_rows _ rest _ _ (by decide) (by decide) (by decide)
        replied
  | viewFolder path =>
      exact readResponses_rows _ rest _ _ (by decide) (by decide) (by decide)
        replied
  | info filename => exact readResponses_info _ rest replied _
  | exec filename => exact readResponses_exec _ rest replied
  | addAccess permFlag filename username =>
      exact readResponses_single _ rest _ replied
  | remAccess filename username => exact readResponses_single _ rest _ replied
  | requestAccess filename permission =>
      exact readResponses_single _ rest _ replied
  | approveAccess requestId => exact readResponses_single _ rest _ replied
  | rejectAccess requestId => exact readResponses_single _ rest _ replied
  | create filename => exact readResponses_single _ rest _ replied
  | delete filename => exact readResponses_single _ rest _ replied
  | createFolder path => exact readResponses_single _ rest _ replied
  | move source destination => exact readResponses_single _ rest _ replied
  | copy src dest => exact readResponses_single _ rest _ replied
  | onStorage use filename => exact readResponses_single _ rest _ replied

end Replies

/-- A handler that is through would be through with more bytes behind. -/
theorem TypedCommand.read_append
    {command : TypedCommand}
    {socket rest : CString}
    {result : HandlerResult}
    (read : command.read socket = some (result, rest))
    (more : CString) :
    command.read (socket ++ more) = some (result, rest ++ more) := by
  cases command with
  | view flags =>
      obtain ⟨⟨inner, left⟩, readRows, same⟩ := Option.map_eq_some_iff.mp read
      obtain ⟨rfl, rfl⟩ := Prod.mk.inj same
      simp [TypedCommand.read, readResponses_append _ _ readRows more]
  | list =>
      obtain ⟨⟨inner, left⟩, readRows, same⟩ := Option.map_eq_some_iff.mp read
      obtain ⟨rfl, rfl⟩ := Prod.mk.inj same
      simp [TypedCommand.read, readResponses_append _ _ readRows more]
  | _ => exact readResponses_append _ _ read more

/--
However much of its reply has arrived, a handler waits for the rest of it, or
has read exactly the reply.
-/
theorem TypedCommand.read_arrived
    {command : TypedCommand}
    {reply : NsReply}
    (replied : ReplyOf command.Stream reply)
    {arrived underWay rest : CString}
    (carries : arrived ++ underWay = sentBytes reply)
    {result : HandlerResult}
    (read : command.read arrived = some (result, rest)) :
    result = command.shown reply ∧ rest = [] ∧ underWay = [] := by
  have whole := command.read_reply [] replied
  rw [List.append_nil, ← carries, TypedCommand.read_append read underWay]
    at whole
  obtain ⟨same, nothing⟩ := Prod.mk.inj (Option.some.inj whole)
  rw [List.append_eq_nil_iff] at nothing
  exact ⟨same, nothing⟩

end DistributedDocs
