import DistributedDocs.GuardedRun
import DistributedDocs.LockOrder
import Mathlib.Data.Prod.Lex

namespace DistributedDocs

/-!
# The threads of the storage servers

What the handlers of `storage_server.c` do with `files_lock`, the `file_lock`
of a record and `sessions_lock`, and whom they wait for.  The tests a handler
makes on its message, its files and its sessions are answered by the run.
-/

namespace ServerThreads

/-- The locks of one storage server; a record is its address. -/
inductive ServerLock where
  | files
  | file (record : Nat)
  | sessions
deriving DecidableEq

namespace ServerLock

/-- The list of records comes first, then the records by address. -/
def level : ServerLock → Nat ×ₗ Nat
  | files => toLex (0, 0)
  | file record => toLex (1, record)
  | sessions => toLex (2, 0)

instance : Preorder ServerLock :=
  Preorder.lift level

@[simp] theorem files_lt_file (record : Nat) : files < file record := by
  change level files < level (file record)
  simp [level, Prod.Lex.toLex_lt_toLex]

@[simp] theorem files_lt_sessions : files < sessions := by
  change level files < level sessions
  simp [level, Prod.Lex.toLex_lt_toLex]

@[simp] theorem file_lt_file
    (first second : Nat) :
    file first < file second ↔ first < second := by
  change level (file first) < level (file second) ↔ _
  simp [level, Prod.Lex.toLex_lt_toLex]

@[simp] theorem file_lt_sessions (record : Nat) : file record < sessions := by
  change level (file record) < level sessions
  simp [level, Prod.Lex.toLex_lt_toLex]

end ServerLock

open Locks Locks.Program ServerLock

variable (Server : Type)

/--
What a handler does with the locks of its server.  A lookup finds a record or
none, and a test passes when it finds anything.
-/
abbrev LockProgram :=
  Locks.Program Server ServerLock (Option Nat)

variable {Server}

/-- One test of the code. -/
def test (passed failed : LockProgram Server) : LockProgram Server :=
  .ask fun answer => if answer.isSome then passed else failed

/-- Several tests in a row that fail in the same way. -/
def tests :
    Nat → LockProgram Server → LockProgram Server → LockProgram Server
  | 0, passed, _ => passed
  | count + 1, passed, failed => test (tests count passed failed) failed

/-- A lookup of a record. -/
def lookup
    (found : Nat → LockProgram Server)
    (missing : LockProgram Server) : LockProgram Server :=
  .ask fun answer =>
    match answer with
    | some record => found record
    | none => missing

/-- `send_error_response`, or `ss_send_ns_error`. -/
def refuse : LockProgram Server :=
  .reply .done

/-- The handler gives the record up before it answers with an error. -/
def refuseFile (record : Nat) : LockProgram Server :=
  .unlock (.file record) refuse

/-- `sessions_lock` is taken for a moment. -/
def visitSessions (rest : LockProgram Server) : LockProgram Server :=
  .lock .sessions (.unlock .sessions rest)

/--
The record is looked up under `files_lock`, which is given up once the record
is locked; `accessTests` counts the tests made in between.
-/
def lockFile
    (accessTests : Nat)
    (body : Nat → LockProgram Server) : LockProgram Server :=
  .lock .files
    (lookup
      (fun record =>
        tests accessTests
          (.lock (.file record) (.unlock .files (body record)))
          (.unlock .files refuse))
      (.unlock .files refuse))

/-! ## Client handlers -/

/-- `handle_client_read`: the reply is sent while the record is locked. -/
def handleClientRead : LockProgram Server :=
  test
    (lockFile 1 fun record =>
      test (.reply (.unlock (.file record) .done)) (refuseFile record))
    refuse

/-- `handle_client_stream`. -/
def handleClientStream : LockProgram Server :=
  test
    (lockFile 1 fun record =>
      test (.reply (.unlock (.file record) .done)) (refuseFile record))
    refuse

/-- `ss_abort_session`, also when the connection ends. -/
def ssAbortSession (rest : LockProgram Server) : LockProgram Server :=
  visitSessions rest

/-- `handle_client_write_lock`. -/
def handleClientWriteLock : LockProgram Server :=
  tests 2
    (ssAbortSession
      (lockFile 1 fun record =>
        visitSessions
          (tests 4
            (visitSessions
              (test (.reply (.unlock (.file record) .done))
                (refuseFile record)))
            (refuseFile record))))
    refuse

/-- `handle_client_write_data`. -/
def handleClientWriteData : LockProgram Server :=
  tests 2 (visitSessions (tests 2 (.reply .done) refuse)) refuse

/--
`handle_client_etirw`: the record is that of the session, and is locked without
`files_lock`.
-/
def handleClientEtirw : LockProgram Server :=
  .lock .sessions
    (lookup
      (fun record =>
        .unlock .sessions
          (.lock (.file record)
            (tests 5
              (visitSessions
                (.unlock (.file record) (visitSessions (.reply .done))))
              (refuseFile record))))
      (.unlock .sessions refuse))

/-- `handle_client_checkpoint`. -/
def handleClientCheckpoint : LockProgram Server :=
  tests 3
    (lockFile 1 fun record =>
      visitSessions
        (tests 4 (.unlock (.file record) (.reply .done)) (refuseFile record)))
    refuse

/-- `handle_client_viewcheckpoint`. -/
def handleClientViewcheckpoint : LockProgram Server :=
  tests 3
    (lockFile 1 fun record =>
      tests 3 (.reply (.unlock (.file record) .done)) (refuseFile record))
    refuse

/-- `handle_client_revert`. -/
def handleClientRevert : LockProgram Server :=
  tests 3
    (lockFile 1 fun record =>
      visitSessions
        (tests 5 (.unlock (.file record) (.reply .done)) (refuseFile record)))
    refuse

/-- `handle_client_listcheckpoints`. -/
def handleClientListcheckpoints : LockProgram Server :=
  test
    (lockFile 1 fun record => .reply (.unlock (.file record) .done))
    refuse

/-- `handle_client_undo`. -/
def handleClientUndo : LockProgram Server :=
  test
    (lockFile 1 fun record =>
      visitSessions
        (tests 4 (.unlock (.file record) (.reply .done)) (refuseFile record)))
    refuse

/-! ## Name-server commands -/

/-- CREATE_FILE: `ss_create_file` holds `files_lock` throughout. -/
def ssCreateFile : LockProgram Server :=
  tests 2
    (.lock .files
      (tests 3 (.unlock .files (.reply .done)) (.unlock .files refuse)))
    refuse

/-- DELETE_FILE: `ss_delete_file` looks for writers under `files_lock`. -/
def ssDeleteFile : LockProgram Server :=
  tests 2
    (.lock .files
      (test
        (visitSessions
          (test (.unlock .files (.reply .done)) (.unlock .files refuse)))
        (.unlock .files refuse)))
    refuse

/-- GET_STATS. -/
def handleGetStats : LockProgram Server :=
  test
    (lockFile 0 fun record => .reply (.unlock (.file record) .done))
    refuse

/-- GET_CONTENT. -/
def handleGetContent : LockProgram Server :=
  test
    (lockFile 0 fun record =>
      test (.reply (.unlock (.file record) .done)) (refuseFile record))
    refuse

/-- SS_RENAME: `ss_handle_rename`. -/
def ssHandleRename : LockProgram Server :=
  tests 2
    (lockFile 0 fun record =>
      tests 4 (.unlock (.file record) (.reply .done)) (refuseFile record))
    refuse

/-- SS_ADDACCESS. -/
def ssAddAccess : LockProgram Server :=
  test
    (lockFile 0 fun record =>
      tests 2 (.unlock (.file record) (.reply .done)) (refuseFile record))
    refuse

/-- SS_REMACCESS. -/
def ssRemAccess : LockProgram Server :=
  test
    (lockFile 0 fun record =>
      tests 2 (.unlock (.file record) (.reply .done)) (refuseFile record))
    refuse

/-- The end of `handle_ss_copy`, with only the destination locked. -/
def finishCopy (destination : Nat) : LockProgram Server :=
  test (.unlock (.file destination) (.reply .done)) (refuseFile destination)

/-- `handle_ss_copy` when the source is the record of the destination. -/
def copyOntoItself (destination : Nat) : LockProgram Server :=
  .lock (.file destination)
    (.unlock .files
      (visitSessions
        (test
          (test (finishCopy destination) (refuseFile destination))
          (refuseFile destination))))

/-- `handle_ss_copy` between two records, which it locks by address. -/
def copyBetween (destination source : Nat) : LockProgram Server :=
  .lock (.file (min destination source))
    (.lock (.file (max destination source))
      (.unlock .files
        (visitSessions
          (test
            (test
              (.unlock (.file source) (finishCopy destination))
              (.unlock (.file source) (refuseFile destination)))
            (.unlock (.file source) (refuseFile destination))))))

/-- `handle_ss_copy` with a source at the same server. -/
def handleSsCopyLocal : LockProgram Server :=
  tests 2
    (.lock .files
      (.ask fun destination =>
        .ask fun source =>
          match destination, source with
          | some destination, some source =>
              if source = destination then
                copyOntoItself destination
              else
                copyBetween destination source
          | _, _ => .unlock .files refuse))
    refuse

/--
`handle_ss_copy` with a source at another server: the destination is locked
while the other server serves `REQ_READ`.
-/
def handleSsCopyRemote (source : Server) : LockProgram Server :=
  tests 3
    (lockFile 0 fun destination =>
      visitSessions
        (test
          (tests 2
            (.send source handleClientRead
              (test
                (.await (.close (test (finishCopy destination)
                  (refuseFile destination))))
                (.close (refuseFile destination))))
            (refuseFile destination))
          (refuseFile destination)))
    refuse

/-- `handle_ss_copy`; without a source address it is `LOCAL`. -/
def handleSsCopy : Option Server → LockProgram Server
  | none => handleSsCopyLocal
  | some source => handleSsCopyRemote source

/-! ## The servers -/

/-- What a client connection asks of a server, or that it ends. -/
inductive ClientCommand where
  | read
  | stream
  | writeLock
  | writeData
  | etirw
  | undo
  | checkpoint
  | viewcheckpoint
  | revert
  | listcheckpoints
  | disconnected

/-- The dispatch of `client_thread`. -/
def ClientCommand.handler : ClientCommand → LockProgram Server
  | read => handleClientRead
  | stream => handleClientStream
  | writeLock => handleClientWriteLock
  | writeData => handleClientWriteData
  | etirw => handleClientEtirw
  | undo => handleClientUndo
  | checkpoint => handleClientCheckpoint
  | viewcheckpoint => handleClientViewcheckpoint
  | revert => handleClientRevert
  | listcheckpoints => handleClientListcheckpoints
  | disconnected => ssAbortSession .done

/-- What the name server asks of a server; a copy names the source's server. -/
inductive ControlCommand (Server : Type) where
  | createFile
  | deleteFile
  | getStats
  | getContent
  | ssRename
  | ssAddaccess
  | ssRemaccess
  | copy (source : Server)

section Servers

variable [DecidableEq Server]

/-- The source field of `SS_COPY`: none is `LOCAL`. -/
def copySource (source destination : Server) : Option Server :=
  if source = destination then none else some source

/-- The dispatch of `ns_control_loop`. -/
def ControlCommand.handler
    (server : Server) : ControlCommand Server → LockProgram Server
  | createFile => ssCreateFile
  | deleteFile => ssDeleteFile
  | getStats => handleGetStats
  | getContent => handleGetContent
  | ssRename => ssHandleRename
  | ssAddaccess => ssAddAccess
  | ssRemaccess => ssRemAccess
  | copy source => handleSsCopy (copySource source server)

/-- The threads, and the one that handles a server's last control command. -/
structure ServersState (Server : Type) where
  locks : Locks.State Server ServerLock (Option Nat)
  control : Server → Option Nat

/-- No command has come yet. -/
def ServersState.empty : ServersState Server :=
  ⟨.empty, fun _ => none⟩

/-- A command comes to a server, or a handler goes on. -/
inductive ServersEvent (Server : Type) where
  | client (server : Server) (command : ClientCommand)
  | control (server : Server) (command : ControlCommand Server)
  | advance (thread : Nat) (answer : Option Nat)

/-- `ns_control_loop` has handled its last command. -/
def ServersState.controlIdle
    (state : ServersState Server)
    (server : Server) : Bool :=
  match state.control server with
  | none => true
  | some thread =>
      match state.locks.threads[thread]? with
      | some ⟨_, _, .done⟩ => true
      | _ => false

/--
One step: connections have a thread each, and the commands of the name server
are handled one after the other.
-/
def serversStep
    (state : ServersState Server) :
    ServersEvent Server → ServersState Server
  | .client server command =>
      { state with locks := Locks.step state.locks (.begin server command.handler) }
  | .control server command =>
      if state.controlIdle server then
        { locks := Locks.step state.locks (.begin server (command.handler server))
          control :=
            Function.update state.control server
              (some state.locks.threads.length) }
      else
        state
  | .advance thread answer =>
      { state with locks := Locks.step state.locks (.advance thread answer) }

/--
An `SS_COPY` about to send `REQ_READ` does not send it to a server from which
unanswered `REQ_READ`s lead back to its own.
-/
def ReadsForward
    (state : ServersState Server) : ServersEvent Server → Prop
  | .advance thread answer =>
      SendsForward state.locks (.advance thread answer)
  | _ => True

end Servers

/-! ## Every handler is ordered -/

section Ordered

variable {held : List ServerLock} {passed failed : LockProgram Server}

theorem ordered_test
    (passes : passed.Ordered held)
    (fails : failed.Ordered held) :
    (test passed failed).Ordered held := by
  intro answer
  dsimp only
  split
  · exact passes
  · exact fails

theorem ordered_tests
    (count : Nat)
    (passes : passed.Ordered held)
    (fails : failed.Ordered held) :
    (tests count passed failed).Ordered held := by
  induction count with
  | zero => exact passes
  | succ count inductionHypothesis =>
      exact ordered_test inductionHypothesis fails

theorem ordered_lookup
    {found : Nat → LockProgram Server}
    {missing : LockProgram Server}
    (finds : ∀ record, (found record).Ordered held)
    (misses : missing.Ordered held) :
    (lookup found missing).Ordered held := by
  intro answer
  cases answer with
  | none => exact misses
  | some record => exact finds record

theorem ordered_refuse : (refuse : LockProgram Server).Ordered [] :=
  rfl

/-- A handler that gives back its last lock goes on without locks. -/
theorem ordered_unlock
    {lock : ServerLock}
    {rest : LockProgram Server}
    (ordered : rest.Ordered []) :
    (Program.unlock lock rest).Ordered [lock] := by
  simpa [Program.Ordered] using ordered

theorem ordered_refuseFile (record : Nat) :
    (refuseFile record : LockProgram Server).Ordered [.file record] :=
  ordered_unlock ordered_refuse

/-- `sessions_lock` may be taken while files are locked. -/
theorem ordered_visitSessions
    {rest : LockProgram Server}
    (below : ∀ lock ∈ held, lock < sessions)
    (ordered : rest.Ordered held) :
    (visitSessions rest).Ordered held := by
  have kept : (sessions :: held).filter (· ≠ sessions) = held := by
    rw [List.filter_cons_of_neg (by simp), List.filter_eq_self]
    intro lock isHeld
    simpa using (below lock isHeld).ne
  refine ⟨below, List.mem_cons_self, ?_⟩
  rw [kept]
  exact ordered

theorem ordered_lockFile
    (accessTests : Nat)
    {body : Nat → LockProgram Server}
    (ordered : ∀ record, (body record).Ordered [.file record]) :
    (lockFile accessTests body).Ordered [] := by
  refine ⟨by simp, ordered_lookup (fun record => ?_)
    (ordered_unlock ordered_refuse)⟩
  refine ordered_tests accessTests ⟨by simp, by simp, ?_⟩
    (ordered_unlock ordered_refuse)
  simpa using ordered record

theorem ordered_reply
    {rest : LockProgram Server}
    (ordered : rest.Ordered held) :
    (Program.reply rest).Ordered held :=
  ordered

/-- The answer is sent before or after the record is given up. -/
theorem ordered_replyUnlock (record : Nat) :
    (Program.reply (.unlock (.file record) .done) :
      LockProgram Server).Ordered [.file record] :=
  ordered_reply (ordered_unlock rfl)

theorem ordered_unlockReply (record : Nat) :
    (Program.unlock (.file record) (.reply .done) :
      LockProgram Server).Ordered [.file record] :=
  ordered_unlock (ordered_reply rfl)

/-- `sessions_lock` may be taken while one record is locked. -/
theorem ordered_visitSessions_file
    {record : Nat}
    {rest : LockProgram Server}
    (ordered : rest.Ordered [.file record]) :
    (visitSessions rest).Ordered [.file record] :=
  ordered_visitSessions (by simp) ordered

theorem ordered_ssAbortSession
    {rest : LockProgram Server}
    (ordered : rest.Ordered []) :
    (ssAbortSession rest).Ordered [] :=
  ordered_visitSessions (by simp) ordered

theorem ordered_handleClientRead :
    (handleClientRead : LockProgram Server).Ordered [] :=
  ordered_test
    (ordered_lockFile 1 fun record =>
      ordered_test (ordered_replyUnlock record) (ordered_refuseFile record))
    ordered_refuse

theorem ordered_handleClientWriteLock :
    (handleClientWriteLock : LockProgram Server).Ordered [] := by
  refine ordered_tests 2 (ordered_ssAbortSession ?_) ordered_refuse
  refine ordered_lockFile 1 fun record => ordered_visitSessions_file ?_
  refine ordered_tests 4 (ordered_visitSessions_file ?_)
    (ordered_refuseFile record)
  exact ordered_test (ordered_replyUnlock record) (ordered_refuseFile record)

theorem ordered_handleClientWriteData :
    (handleClientWriteData : LockProgram Server).Ordered [] :=
  ordered_tests 2
    (ordered_visitSessions (by simp)
      (ordered_tests 2 (ordered_reply rfl) ordered_refuse))
    ordered_refuse

/-- The session's record is locked after `sessions_lock` has been given up. -/
theorem ordered_handleClientEtirw :
    (handleClientEtirw : LockProgram Server).Ordered [] := by
  refine ⟨by simp, ordered_lookup (fun record => ordered_unlock ?_)
    (ordered_unlock ordered_refuse)⟩
  refine ⟨by simp, ordered_tests 5 (ordered_visitSessions_file ?_)
    (ordered_refuseFile record)⟩
  exact ordered_unlock (ordered_visitSessions (by simp) (ordered_reply rfl))

/-- What is done with an idle record ends with its lock given up. -/
theorem ordered_idleFile
    (requestTests fileTests : Nat) :
    (tests requestTests
      (lockFile 1 fun record =>
        visitSessions
          (tests fileTests (.unlock (.file record) (.reply .done))
            (refuseFile record)))
      refuse : LockProgram Server).Ordered [] :=
  ordered_tests requestTests
    (ordered_lockFile 1 fun record =>
      ordered_visitSessions_file
        (ordered_tests fileTests (ordered_unlockReply record)
          (ordered_refuseFile record)))
    ordered_refuse

theorem ordered_handleClientViewcheckpoint :
    (handleClientViewcheckpoint : LockProgram Server).Ordered [] :=
  ordered_tests 3
    (ordered_lockFile 1 fun record =>
      ordered_tests 3 (ordered_replyUnlock record) (ordered_refuseFile record))
    ordered_refuse

theorem ordered_handleClientListcheckpoints :
    (handleClientListcheckpoints : LockProgram Server).Ordered [] :=
  ordered_test (ordered_lockFile 1 ordered_replyUnlock) ordered_refuse

/-- Every handler of a connection takes the locks in order. -/
theorem ClientCommand.ordered (command : ClientCommand) :
    (command.handler : LockProgram Server).Ordered [] := by
  cases command with
  | read => exact ordered_handleClientRead
  | stream => exact ordered_handleClientRead
  | writeLock => exact ordered_handleClientWriteLock
  | writeData => exact ordered_handleClientWriteData
  | etirw => exact ordered_handleClientEtirw
  | undo => exact ordered_idleFile 1 4
  | checkpoint => exact ordered_idleFile 3 4
  | viewcheckpoint => exact ordered_handleClientViewcheckpoint
  | revert => exact ordered_idleFile 3 5
  | listcheckpoints => exact ordered_handleClientListcheckpoints
  | disconnected => exact ordered_ssAbortSession rfl

theorem ordered_ssCreateFile :
    (ssCreateFile : LockProgram Server).Ordered [] :=
  ordered_tests 2
    ⟨by simp,
      ordered_tests 3 (ordered_unlock (ordered_reply rfl))
        (ordered_unlock ordered_refuse)⟩
    ordered_refuse

/-- Writers are looked for while the list of records is locked. -/
theorem ordered_ssDeleteFile :
    (ssDeleteFile : LockProgram Server).Ordered [] := by
  refine ordered_tests 2 ⟨by simp, ?_⟩ ordered_refuse
  refine ordered_test (ordered_visitSessions (by simp) ?_)
    (ordered_unlock ordered_refuse)
  exact ordered_test (ordered_unlock (ordered_reply rfl))
    (ordered_unlock ordered_refuse)

theorem ordered_handleGetStats :
    (handleGetStats : LockProgram Server).Ordered [] :=
  ordered_test (ordered_lockFile 0 ordered_replyUnlock) ordered_refuse

theorem ordered_handleGetContent :
    (handleGetContent : LockProgram Server).Ordered [] :=
  ordered_test
    (ordered_lockFile 0 fun record =>
      ordered_test (ordered_replyUnlock record) (ordered_refuseFile record))
    ordered_refuse

/-- What is done with a record whoever asks for it. -/
theorem ordered_changedFile
    (requestTests fileTests : Nat) :
    (tests requestTests
      (lockFile 0 fun record =>
        tests fileTests (.unlock (.file record) (.reply .done))
          (refuseFile record))
      refuse : LockProgram Server).Ordered [] :=
  ordered_tests requestTests
    (ordered_lockFile 0 fun record =>
      ordered_tests fileTests (ordered_unlockReply record)
        (ordered_refuseFile record))
    ordered_refuse

theorem ordered_finishCopy (destination : Nat) :
    (finishCopy destination : LockProgram Server).Ordered
      [.file destination] :=
  ordered_test (ordered_unlockReply destination)
    (ordered_refuseFile destination)

theorem ordered_copyOntoItself (destination : Nat) :
    (copyOntoItself destination : LockProgram Server).Ordered [.files] := by
  refine ⟨by simp, by simp, ?_⟩
  have kept :
      [ServerLock.file destination, .files].filter (· ≠ .files) =
        [.file destination] := by
    simp
  rw [kept]
  exact ordered_visitSessions_file
    (ordered_test
      (ordered_test (ordered_finishCopy destination)
        (ordered_refuseFile destination))
      (ordered_refuseFile destination))

/-- Two records are locked by address, so that no two copies wait for each other. -/
theorem ordered_copyBetween
    {destination source : Nat}
    (different : source ≠ destination) :
    (copyBetween destination source : LockProgram Server).Ordered
      [.files] := by
  have increases : min destination source < max destination source :=
    by omega
  have both :
      [ServerLock.file (max destination source),
          .file (min destination source), .files].filter (· ≠ .files) =
        [.file (max destination source), .file (min destination source)] := by
    simp
  have one :
      [ServerLock.file (max destination source),
          .file (min destination source)].filter (· ≠ .file source) =
        [.file destination] := by
    rcases Nat.lt_or_gt_of_ne different with less | greater
    · simp [less.le, different.symm]
    · simp [greater.le, different.symm]
  have sourceHeld :
      ServerLock.file source ∈
        [ServerLock.file (max destination source),
          .file (min destination source)] := by
    rcases Nat.lt_or_gt_of_ne different with less | greater
    · simp [less.le]
    · simp [greater.le]
  have unlocks :
      ∀ rest : LockProgram Server, rest.Ordered [.file destination] →
        (Program.unlock (.file source) rest).Ordered
          [.file (max destination source), .file (min destination source)] :=
    fun rest ordered => ⟨sourceHeld, one ▸ ordered⟩
  refine ⟨by simp, ⟨by simp [increases], ⟨by simp, ?_⟩⟩⟩
  rw [both]
  refine ordered_visitSessions (by simp) (ordered_test (ordered_test ?_ ?_) ?_)
  · exact unlocks _ (ordered_finishCopy destination)
  · exact unlocks _ (ordered_refuseFile destination)
  · exact unlocks _ (ordered_refuseFile destination)

theorem ordered_handleSsCopyLocal :
    (handleSsCopyLocal : LockProgram Server).Ordered [] := by
  refine ordered_tests 2 ⟨by simp, fun destination source => ?_⟩ ordered_refuse
  dsimp only
  split
  · split
    · exact ordered_copyOntoItself _
    · next different => exact ordered_copyBetween different
  · exact ordered_unlock ordered_refuse

/-- The request is served without any lock of the server that sends it. -/
theorem ordered_handleSsCopyRemote (source : Server) :
    (handleSsCopyRemote source).Ordered [] := by
  refine ordered_tests 3 (ordered_lockFile 0 fun destination => ?_)
    ordered_refuse
  refine ordered_visitSessions_file
    (ordered_test (ordered_tests 2 ?_ (ordered_refuseFile destination))
      (ordered_refuseFile destination))
  exact ⟨ordered_handleClientRead,
    ordered_test
      (ordered_test (ordered_finishCopy destination)
        (ordered_refuseFile destination))
      (ordered_refuseFile destination)⟩

/-- Every handler of the control loop takes the locks in order. -/
theorem ControlCommand.ordered
    [DecidableEq Server]
    (server : Server)
    (command : ControlCommand Server) :
    (command.handler server).Ordered [] := by
  cases command with
  | createFile => exact ordered_ssCreateFile
  | deleteFile => exact ordered_ssDeleteFile
  | getStats => exact ordered_handleGetStats
  | getContent => exact ordered_handleGetContent
  | ssRename => exact ordered_changedFile 2 4
  | ssAddaccess => exact ordered_changedFile 1 2
  | ssRemaccess => exact ordered_changedFile 1 2
  | copy source =>
      change (handleSsCopy (copySource source server)).Ordered []
      unfold copySource
      split
      · exact ordered_handleSsCopyLocal
      · exact ordered_handleSsCopyRemote source

end Ordered

/-! ## No circle of handlers -/

section Runs

variable [DecidableEq Server]

theorem sound_serversStep
    {state : ServersState Server}
    {event : ServersEvent Server}
    (sound : Sound state.locks)
    (forward : ReadsForward state event) :
    Sound (serversStep state event).locks := by
  cases event with
  | client server command => exact sound.begins command.ordered
  | control server command =>
      unfold serversStep
      simp only
      split
      · exact sound.begins (command.ordered server)
      · exact sound
  | advance thread answer => exact sound.advance forward

/--
As long as no `REQ_READ` is sent to a server from which unanswered ones lead
back, no circle of handlers of any servers waits.
-/
theorem not_deadlocked_of_readsForward
    {events : List (ServersEvent Server)}
    (guarded :
      GuardedRun serversStep ReadsForward ServersState.empty events) :
    ¬Deadlocked (runFrom serversStep ServersState.empty events).locks :=
  Sound.not_deadlocked
    (@GuardedRun.invariant _ _ serversStep ReadsForward
      (fun state => Sound state.locks) (fun _ _ => sound_serversStep) _
      sound_empty _ guarded)

/-- A request is sent to another server while none is unanswered. -/
def sendsAlone
    (state : ServersState Server) : ServersEvent Server → Bool
  | .advance thread _ =>
      match state.locks.threads[thread]? with
      | some ⟨site, _, .send target _ _⟩ =>
          decide (target ≠ site) &&
            state.locks.threads.all fun other => other.unanswered.isNone
      | _ => true
  | _ => true

theorem readsForward_of_sendsAlone
    {state : ServersState Server}
    {event : ServersEvent Server}
    (alone : sendsAlone state event = true) :
    ReadsForward state event := by
  cases event with
  | client server command => trivial
  | control server command => trivial
  | advance thread answer =>
      rintro ⟨site, unanswered, _⟩ target handler rest found rfl
      simp only [sendsAlone, found, Bool.and_eq_true, decide_eq_true_eq,
        List.all_eq_true] at alone
      intro back
      rcases Relation.ReflTransGen.cases_head back with same | ⟨next, first, _⟩
      · exact alone.1 same
      · obtain ⟨other, callee, current, isOther, _, pending, _⟩ := first
        have none := alone.2 current (List.mem_of_getElem? isOther)
        simp [pending] at none

/-- One copy waits for a reader of the other server, which waits for a record. -/
def copyBehindReader : List (ServersEvent Nat) :=
  .client 1 .stream :: List.replicate 6 (.advance 0 (some 10)) ++
    .control 2 (.copy 1) :: List.replicate 14 (.advance 1 (some 20)) ++
      List.replicate 4 (.advance 2 (some 10))

theorem not_deadlocked_copyBehindReader :
    (runFrom serversStep ServersState.empty copyBehindReader).locks.waitsFor 1 =
        some 2 ∧
      (runFrom serversStep ServersState.empty copyBehindReader).locks.waitsFor 2 =
          some 0 ∧
        ¬Deadlocked
          (runFrom serversStep ServersState.empty copyBehindReader).locks :=
  ⟨by decide +kernel, by decide +kernel,
    not_deadlocked_of_readsForward
      (GuardedRun.mono (fun _ _ => readsForward_of_sendsAlone)
        (by decide +kernel :
          GuardedRun serversStep (fun state event => sendsAlone state event = true)
            ServersState.empty copyBehindReader))⟩

/--
A file of each of two servers is copied onto the other server's file: each
server locks its own file and waits for the other to read the file it has
locked.
-/
def crossingCopies : List (ServersEvent Nat) :=
  .control 2 (.copy 1) :: .control 1 (.copy 2) ::
    (List.replicate 14 (.advance 0 (some 20)) ++
      List.replicate 14 (.advance 1 (some 10)) ++
        List.replicate 4 (.advance 2 (some 10)) ++
          List.replicate 4 (.advance 3 (some 20)))

theorem deadlocked_crossingCopies :
    ¬∀ events : List (ServersEvent Nat),
      ¬Deadlocked (runFrom serversStep ServersState.empty events).locks := by
  intro free
  refine free crossingCopies ⟨0, ?_⟩
  have first :
      (runFrom serversStep ServersState.empty crossingCopies).locks.waitsFor 0 =
        some 2 := by decide +kernel
  have second :
      (runFrom serversStep ServersState.empty crossingCopies).locks.waitsFor 2 =
        some 1 := by decide +kernel
  have third :
      (runFrom serversStep ServersState.empty crossingCopies).locks.waitsFor 1 =
        some 3 := by decide +kernel
  have fourth :
      (runFrom serversStep ServersState.empty crossingCopies).locks.waitsFor 3 =
        some 0 := by decide +kernel
  refine Relation.TransGen.tail ?_ fourth
  refine Relation.TransGen.tail ?_ third
  exact Relation.TransGen.tail (.single first) second

end Runs

end ServerThreads

end DistributedDocs
