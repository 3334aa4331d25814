import DistributedDocs.NameServerCoherence

namespace DistributedDocs

/-!
# One storage server's connection to the name server

Name-server threads call `storage_server_send_and_wait`; the connection's
reader hands what arrives to a waiting call or applies it to the file table.
A step is a stretch that runs under `comm_lock` between two waits on
`response_cond`.  A waiting thread may run its next stretch at any time: where
nothing has changed it only goes back to waiting.
-/

/--
A message from the storage server.  A reply carries the call whose request it
answers, which the name server cannot see.
-/
inductive SsMessage where
  | reply (call : Nat) (fields : List CString)
  | hasFile (fields : List CString)
  | filesDone
  | writeComplete (fields : List CString)
  deriving DecidableEq

/-- The call a message answers. -/
def SsMessage.answered : SsMessage → Option Nat
  | .reply call _ =>
      some call
  | _ => none

/-- What a call of `storage_server_send_and_wait` gives back. -/
inductive CallResult where
  | failed (code : Int)
  | returned (message : SsMessage)
  deriving DecidableEq

/--
Where a call is.  `entering` has not yet had `comm_lock`; `queued` and
`awaitingReply` are the two waits on `response_cond`.
-/
inductive CallPhase where
  | entering
  | queued
  | awaitingReply
  | finished (result : CallResult)
  deriving DecidableEq

/-- The call has returned. -/
def CallPhase.isFinished : CallPhase → Bool
  | .finished _ =>
      true
  | _ => false

/-- What becomes of building and sending a request. -/
inductive Sending where
  | unbuildable
  | unsendable
  | sent
  deriving DecidableEq

/-- Which loop of `run_ss_loop` the reader is in. -/
inductive ReaderPhase where
  | syncing
  | serving
  | ended
  deriving DecidableEq

/--
The connection.  A call is known by its position in `calls`.  `isAlive` stands
for `is_alive` and for `sockfd >= 0`, which change together.  No code reads
`seen`, the messages read so far and when, nor `lost`, the messages that were
freed without reaching a caller or the file table.
-/
structure Connection where
  isAlive : Bool
  awaitingResponse : Bool
  responseReady : Bool
  responseStatus : Int
  responseRaw : Option SsMessage
  calls : List CallPhase
  requests : List Nat
  stream : List SsMessage
  filesSent : Bool
  reader : ReaderPhase
  ns : NameServer
  seen : List (Int × SsMessage)
  lost : List SsMessage

/-- `storage_server_comm_init`, with the reader in one of its loops. -/
def Connection.opened (reader : ReaderPhase) (ns : NameServer) : Connection where
  isAlive := true
  awaitingResponse := false
  responseReady := false
  responseStatus := 0
  responseRaw := none
  calls := []
  requests := []
  stream := []
  filesSent := reader ≠ .syncing
  reader := reader
  ns := ns
  seen := []
  lost := []

namespace Connection

variable (ss : StorageServerInfo)

/-- The call reaches another point of its body. -/
def setCall (call : Nat) (phase : CallPhase) (conn : Connection) :
    Connection :=
  { conn with calls := conn.calls.set call phase }

/-- `free(ss->response_raw)` -/
def freeResponse (conn : Connection) : Connection :=
  { conn with
    responseRaw := none
    lost := conn.lost ++ conn.responseRaw.toList }

/-! ## `storage_server_send_and_wait` -/

/-- The test of the socket before `comm_lock` is taken. -/
def call (conn : Connection) : Connection :=
  { conn with
    calls :=
      conn.calls ++
        [if conn.isAlive then .entering else .finished (.failed (-2))] }

/-- From the end of the first wait to the second one. -/
def sendRequest (call : Nat) (sending : Sending) (conn : Connection) :
    Connection :=
  let cleared :=
    { conn.freeResponse with responseReady := false, responseStatus := 0 }
  match sending with
  | .unbuildable => cleared.setCall call (.finished (.failed (-3)))
  | .unsendable => cleared.setCall call (.finished (.failed (-4)))
  | .sent =>
      if conn.isAlive then
        { cleared.setCall call .awaitingReply with
          awaitingResponse := true
          requests := conn.requests ++ [call] }
      else
        cleared.setCall call (.finished (.failed (-4)))

/-- From the second wait on. -/
def takeResponse (call : Nat) (conn : Connection) : Connection :=
  if !conn.responseReady then
    conn
  else if conn.responseStatus ≠ 0 then
    { conn.freeResponse.setCall call (.finished (.failed (-5))) with
      awaitingResponse := false
      responseReady := false }
  else
    { conn.setCall call
        (.finished
          (match conn.responseRaw with
            | none => .failed (-6)
            | some message => .returned message)) with
      responseRaw := none
      awaitingResponse := false
      responseReady := false }

/-- The call has `comm_lock` and runs until it waits or returns. -/
def resume (call : Nat) (sending : Sending) (conn : Connection) :
    Connection :=
  match conn.calls[call]? with
  | some .entering | some .queued =>
      if conn.awaitingResponse then
        conn.setCall call .queued
      else
        conn.sendRequest call sending
  | some .awaitingReply =>
      conn.takeResponse call
  | _ => conn

/-! ## The storage server -/

/-- It answers the oldest request. -/
def answer (fields : List CString) (conn : Connection) : Connection :=
  match conn.requests with
  | [] => conn
  | call :: rest =>
      { conn with
        requests := rest
        stream := conn.stream ++ [.reply call fields] }

/-- It sends a message that answers nothing. -/
def notify (message : SsMessage) (conn : Connection) : Connection :=
  { conn with stream := conn.stream ++ [message] }

/-! ## `run_ss_loop` -/

/-- The reader hands a message to the call that waits. -/
def dispatch (message : SsMessage) (conn : Connection) : Connection :=
  { conn.freeResponse with
    responseRaw := some message
    responseStatus := 0
    responseReady := true
    awaitingResponse := false }

/-- The message is freed and nothing else is done with it. -/
def drop (message : SsMessage) (conn : Connection) : Connection :=
  { conn with lost := conn.lost ++ [message] }

/-- What the reader does with a message it has not handed to a call. -/
def handle (now : Int) (message : SsMessage) (conn : Connection) :
    Connection :=
  match conn.reader, message with
  | .syncing, .hasFile fields =>
      match applyHasFile now ss fields conn.ns with
      | .ok ns => { conn with ns := ns }
      | .error _ => conn.drop message
  | .syncing, .filesDone =>
      { conn with
        reader := .serving
        ns := nsRecalculateServerLoad ss.address conn.ns }
  | .serving, .writeComplete fields =>
      if fields.length < 5 then
        conn.drop message
      else
        { conn with ns := applyWriteComplete now ss fields conn.ns }
  | _, _ => conn.drop message

/-- One turn of the reader's loop. -/
def read (now : Int) (conn : Connection) : Connection :=
  if conn.reader = .ended then
    conn
  else
    match conn.stream with
    | [] => conn
    | message :: rest =>
        let taken :=
          { conn with
            stream := rest
            seen := conn.seen ++ [(now, message)] }
        if conn.awaitingResponse && !conn.responseReady then
          taken.dispatch message
        else
          taken.handle ss now message

theorem read_ended
    (now : Int)
    {conn : Connection}
    (ended : conn.reader = .ended) :
    conn.read ss now = conn := by
  simp [read, ended]

theorem read_nil
    (now : Int)
    {conn : Connection}
    (empty : conn.stream = []) :
    conn.read ss now = conn := by
  simp [read, empty]

theorem read_cons
    (now : Int)
    {conn : Connection}
    (reading : conn.reader ≠ .ended)
    {message : SsMessage}
    {rest : List SsMessage}
    (next : conn.stream = message :: rest) :
    conn.read ss now =
      let taken :=
        { conn with
          stream := rest
          seen := conn.seen ++ [(now, message)] }
      if conn.awaitingResponse && !conn.responseReady then
        taken.dispatch message
      else
        taken.handle ss now message := by
  simp only [read, if_neg reading, next]

/-- Outside the slot, the reader changes the file table and its own loop. -/
theorem handle_frame
    (now : Int)
    (message : SsMessage)
    (conn : Connection) :
    ∃ reader ns lost,
      (conn.reader = .ended → reader = .ended) ∧
        conn.handle ss now message =
          { conn with reader := reader, ns := ns, lost := lost } := by
  unfold handle drop
  split
  · split
    · exact ⟨_, _, _, id, rfl⟩
    · exact ⟨_, _, _, id, rfl⟩
  · next syncing =>
    exact ⟨_, _, _, fun ended => by simp [syncing] at ended, rfl⟩
  · split
    · exact ⟨_, _, _, id, rfl⟩
    · exact ⟨_, _, _, id, rfl⟩
  · exact ⟨_, _, _, id, rfl⟩

/-- The reader finds the connection closed: `storage_server_signal_failure`. -/
def fail (conn : Connection) : Connection :=
  let closed := { conn with isAlive := false, reader := .ended }
  if conn.awaitingResponse && !conn.responseReady then
    { closed.freeResponse with
      responseStatus := -1
      responseReady := true
      awaitingResponse := false }
  else
    closed

end Connection

/-! ## Runs -/

/-- What happens on the connection. -/
inductive ConnectionEvent where
  | call
  | resume (call : Nat) (sending : Sending)
  | answer (fields : List CString)
  | hasFile (fields : List CString)
  | filesDone
  | writeComplete (filename size words chars : CString)
  | read (now : Int)
  | fail
  deriving DecidableEq

/--
One event.  `SS_HAS_FILE` is sent before `SS_FILES_DONE` only, and that once.
-/
def connectionStep
    (ss : StorageServerInfo)
    (conn : Connection) :
    ConnectionEvent → Connection
  | .call =>
      conn.call
  | .resume call sending =>
      conn.resume call sending
  | .answer fields =>
      conn.answer fields
  | .hasFile fields =>
      if conn.filesSent then conn else conn.notify (.hasFile fields)
  | .filesDone =>
      if conn.filesSent then
        conn
      else
        { conn.notify .filesDone with filesSent := true }
  | .writeComplete filename size words chars =>
      conn.notify
        (.writeComplete [str "WRITE_COMPLETE", filename, size, words, chars])
  | .read now =>
      conn.read ss now
  | .fail =>
      conn.fail

/-- The events that answer no request. -/
def ConnectionEvent.isNotice : ConnectionEvent → Bool
  | .hasFile _ | .filesDone | .writeComplete _ _ _ _ =>
      true
  | _ => false

end DistributedDocs
