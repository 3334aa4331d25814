import DistributedDocs.ServerReplies

namespace DistributedDocs

/-!
# Replies and notices on one stream

`SS_HAS_FILE`, `SS_FILES_DONE` and `WRITE_COMPLETE` share the stream with the
replies, and `run_ss_loop` tells them apart only by whether a call is waiting.
With one call at a time they stay apart as long as no notice is read while a
call waits for its reply and no `WRITE_COMPLETE` is read in the loop of the
file sync.
-/

variable (ss : StorageServerInfo)

/-- The file table once a message has been applied, if it can be. -/
def noticeApplied (now : Int) (message : SsMessage) (ns : NameServer) :
    Option NameServer :=
  match message with
  | .reply _ _ => some ns
  | .hasFile fields =>
      match applyHasFile now ss fields ns with
      | .ok after => some after
      | .error _ => none
  | .filesDone =>
      some (nsRecalculateServerLoad ss.address ns)
  | .writeComplete fields =>
      if fields.length < 5 then none
      else some (applyWriteComplete now ss fields ns)

/-- The file table once every message of a list has been applied in order. -/
def noticesApplied :
    List (Int × SsMessage) → NameServer → Option NameServer
  | [], ns =>
      some ns
  | (now, message) :: rest, ns =>
      (noticeApplied ss now message ns).bind (noticesApplied rest)

theorem noticesApplied_append
    (first second : List (Int × SsMessage))
    (ns : NameServer) :
    noticesApplied ss (first ++ second) ns =
      (noticesApplied ss first ns).bind (noticesApplied ss second) := by
  induction first generalizing ns with
  | nil =>
      rfl
  | cons entry rest inductionHypothesis =>
      simp only [List.cons_append, noticesApplied]
      cases noticeApplied ss entry.1 entry.2 ns with
      | none => rfl
      | some after => exact inductionHypothesis after

/-! ## The order of the file sync -/

/--
The messages that may follow: `done` says whether `SS_FILES_DONE` comes before
them, and `sent` whether it has come at their end.
-/
def SyncsInOrder : Bool → List SsMessage → Bool → Prop
  | done, [], sent =>
      done = sent
  | done, .hasFile _ :: rest, sent =>
      done = false ∧ SyncsInOrder done rest sent
  | done, .filesDone :: rest, sent =>
      done = false ∧ SyncsInOrder true rest sent
  | done, .writeComplete fields :: rest, sent =>
      fields.length = 5 ∧ SyncsInOrder done rest sent
  | done, .reply _ _ :: rest, sent =>
      SyncsInOrder done rest sent

theorem SyncsInOrder.append
    {done middle sent : Bool}
    {first second : List SsMessage}
    (earlier : SyncsInOrder done first middle)
    (later : SyncsInOrder middle second sent) :
    SyncsInOrder done (first ++ second) sent := by
  induction first generalizing done with
  | nil =>
      obtain rfl : done = middle := earlier
      exact later
  | cons message rest inductionHypothesis =>
      cases message with
      | reply => exact inductionHypothesis earlier
      | hasFile => exact ⟨earlier.1, inductionHypothesis earlier.2⟩
      | filesDone => exact ⟨earlier.1, inductionHypothesis earlier.2⟩
      | writeComplete => exact ⟨earlier.1, inductionHypothesis earlier.2⟩

namespace Connection

/-- What is on the stream follows what the reader has read. -/
def InOrder (conn : Connection) : Prop :=
  conn.reader ≠ .ended →
    SyncsInOrder (conn.reader = .serving) conn.stream conn.filesSent

/-- A call that has not returned. -/
def Unfinished (conn : Connection) (call : Nat) : Prop :=
  ∃ phase, conn.calls[call]? = some phase ∧ phase.isFinished = false

/-- At most one call has not returned. -/
def OneUnfinished (conn : Connection) : Prop :=
  ∀ first second, conn.Unfinished first → conn.Unfinished second →
    first = second

/-! ## The guards -/

/-- Calls are made one at a time. -/
def OneAtATime (conn : Connection) : ConnectionEvent → Prop
  | .call =>
      ∀ phase ∈ conn.calls, phase.isFinished = true
  | _ => True

/-- The table has a place for the file that `SS_HAS_FILE` names. -/
def HasRoom (conn : Connection) (fields : List CString) : Prop :=
  match hasFileOf fields with
  | none => False
  | some file =>
      validateFilename file.filename = true ∧
        (file.owner = [] ∨ validateUsername file.owner = true) ∧
        ((∃ index ∈ fileIndexFind file.filename conn.ns,
            index < conn.ns.files.length) ∨
          conn.ns.files.length < nsMaxFiles)

/-- The loop the reader is in applies the message. -/
def Takes (conn : Connection) : SsMessage → Prop
  | .reply _ _ | .filesDone =>
      True
  | .hasFile fields =>
      conn.HasRoom fields
  | .writeComplete _ =>
      conn.reader = .serving

/-- A notice is read while no call waits, in the loop that applies it. -/
def ReadsNoticesApart (conn : Connection) : ConnectionEvent → Prop
  | .read _ =>
      ∀ message ∈ conn.stream.head?,
        message.answered = none → conn.reader ≠ .ended →
          (conn.awaitingResponse = false ∨ conn.responseReady = true) ∧
            conn.Takes message
  | _ => True

section Decidable

variable (conn : Connection)

instance : ∀ event, Decidable (conn.OneAtATime event)
  | .call =>
      inferInstanceAs
        (Decidable (∀ phase ∈ conn.calls, phase.isFinished = true))
  | .resume _ _ | .answer _ | .hasFile _ | .filesDone
  | .writeComplete _ _ _ _ | .read _ | .fail =>
      inferInstanceAs (Decidable True)

instance (fields : List CString) : Decidable (conn.HasRoom fields) :=
  match held : hasFileOf fields with
  | none =>
      isFalse fun room => by simp [HasRoom, held] at room
  | some file =>
      decidable_of_iff
        (validateFilename file.filename = true ∧
          (file.owner = [] ∨ validateUsername file.owner = true) ∧
          ((∃ index ∈ fileIndexFind file.filename conn.ns,
              index < conn.ns.files.length) ∨
            conn.ns.files.length < nsMaxFiles))
        (by simp only [HasRoom, held])

instance : ∀ message, Decidable (conn.Takes message)
  | .reply _ _ | .filesDone =>
      inferInstanceAs (Decidable True)
  | .hasFile fields =>
      inferInstanceAs (Decidable (conn.HasRoom fields))
  | .writeComplete _ =>
      inferInstanceAs (Decidable (conn.reader = .serving))

instance : ∀ event, Decidable (conn.ReadsNoticesApart event)
  | .read _ =>
      inferInstanceAs
        (Decidable
          (∀ message ∈ conn.stream.head?,
            message.answered = none → conn.reader ≠ .ended →
              (conn.awaitingResponse = false ∨ conn.responseReady = true) ∧
                conn.Takes message))
  | .call | .resume _ _ | .answer _ | .hasFile _ | .filesDone
  | .writeComplete _ _ _ _ | .fail =>
      inferInstanceAs (Decidable True)

end Decidable

end Connection

theorem noticeApplied_of_hasRoom
    {conn : Connection}
    {fields : List CString}
    (room : conn.HasRoom fields)
    (now : Int) :
    ∃ after, applyHasFile now ss fields conn.ns = .ok after := by
  unfold Connection.HasRoom at room
  split at room
  · cases room
  · next file parsed =>
    obtain ⟨nameValid, ownerValid, place⟩ := room
    simp only [applyHasFile, parsed, nameValid, Bool.not_true,
      Bool.false_eq_true, ↓reduceIte]
    split
    · next invalid =>
      rcases ownerValid with empty | valid
      · simp [empty] at invalid
      · simp [valid] at invalid
    · split
      · exact ⟨_, rfl⟩
      · next unknown =>
        rcases place with ⟨index, found, inRange⟩ | room
        · rw [Option.mem_def] at found
          simp [found, Option.filter, inRange] at unknown
        · rw [if_neg (Nat.not_le.mpr room)]
          exact ⟨_, rfl⟩

/-- A notice that comes in order and is taken changes the table and the loop. -/
theorem handle_notice
    {conn : Connection}
    {message : SsMessage}
    {rest : List SsMessage}
    (notice : message.answered = none)
    (reading : conn.reader ≠ .ended)
    (inOrder :
      SyncsInOrder (conn.reader = .serving) (message :: rest) conn.filesSent)
    (takes : conn.Takes message)
    (now : Int) :
    ∃ reader ns,
      noticeApplied ss now message conn.ns = some ns ∧
        reader ≠ .ended ∧
        SyncsInOrder (reader = .serving) rest conn.filesSent ∧
        conn.handle ss now message =
          { conn with reader := reader, ns := ns } := by
  cases message with
  | reply =>
      cases notice
  | hasFile fields =>
      have syncing : conn.reader = .syncing := by
        cases at_ : conn.reader with
        | syncing => rfl
        | serving => simp [SyncsInOrder, at_] at inOrder
        | ended => exact absurd at_ reading
      obtain ⟨after, applied⟩ := noticeApplied_of_hasRoom ss takes now
      refine ⟨conn.reader, after, ?_, reading, inOrder.2, ?_⟩
      · simp [noticeApplied, applied]
      · simp [Connection.handle, syncing, applied]
  | filesDone =>
      have syncing : conn.reader = .syncing := by
        cases at_ : conn.reader with
        | syncing => rfl
        | serving => simp [SyncsInOrder, at_] at inOrder
        | ended => exact absurd at_ reading
      refine ⟨.serving, _, rfl, by decide, by simpa using inOrder.2, ?_⟩
      simp [Connection.handle, syncing]
  | writeComplete fields =>
      have serving : conn.reader = .serving := takes
      have enough : ¬fields.length < 5 := by simp [inOrder.1]
      refine ⟨conn.reader, applyWriteComplete now ss fields conn.ns, ?_,
        reading, inOrder.2, ?_⟩
      · simp only [noticeApplied, if_neg enough]
      · simp [Connection.handle, serving, if_neg enough]

/-! ## One call at a time -/

theorem calls_resume
    (call : Nat)
    (sending : Sending)
    (conn : Connection) :
    (conn.resume call sending).calls = conn.calls ∨
      conn.Unfinished call ∧
        ∃ next, (conn.resume call sending).calls = conn.calls.set call next := by
  unfold Connection.resume
  split
  · next held =>
    refine .inr ⟨⟨_, held, rfl⟩, ?_⟩
    unfold Connection.sendRequest
    repeat' split
    all_goals exact ⟨_, rfl⟩
  · next held =>
    refine .inr ⟨⟨_, held, rfl⟩, ?_⟩
    unfold Connection.sendRequest
    repeat' split
    all_goals exact ⟨_, rfl⟩
  · next held =>
    unfold Connection.takeResponse
    split
    · exact .inl rfl
    · refine .inr ⟨⟨_, held, rfl⟩, ?_⟩
      split
      · exact ⟨_, rfl⟩
      · exact ⟨_, rfl⟩
  · exact .inl rfl

theorem Connection.OneUnfinished.resume
    {conn : Connection}
    (one : conn.OneUnfinished)
    (call : Nat)
    (sending : Sending) :
    (conn.resume call sending).OneUnfinished := by
  have earlier :
      ∀ other, (conn.resume call sending).Unfinished other →
        conn.Unfinished other := by
    rintro other ⟨phase, held, unfinished⟩
    rcases calls_resume call sending conn with same | ⟨was, next, changed⟩
    · exact ⟨phase, same ▸ held, unfinished⟩
    · rw [changed] at held
      by_cases same : other = call
      · exact same ▸ was
      · rw [List.getElem?_set_ne (Ne.symm same)] at held
        exact ⟨phase, held, unfinished⟩
  exact fun first second firstUnfinished secondUnfinished =>
    one first second (earlier first firstUnfinished)
      (earlier second secondUnfinished)

theorem Connection.OneUnfinished.call
    {conn : Connection}
    (finished : ∀ phase ∈ conn.calls, phase.isFinished = true) :
    conn.call.OneUnfinished := by
  have last :
      ∀ other, conn.call.Unfinished other → other = conn.calls.length := by
    rintro other ⟨phase, held, unfinished⟩
    simp only [Connection.call, List.getElem?_append] at held
    split at held
    · rw [finished phase (List.mem_of_getElem? held)] at unfinished
      cases unfinished
    · obtain ⟨inRange, _⟩ := List.getElem?_eq_some_iff.mp held
      simp only [List.length_singleton] at inRange
      omega
  exact fun first second firstUnfinished secondUnfinished =>
    (last first firstUnfinished).trans (last second secondUnfinished).symm

/-- With one call at a time, nobody can overtake a delivered reply. -/
theorem ExchangeSound.empty_of_beforeSending
    {conn : Connection}
    (sound : ExchangeSound conn)
    (one : conn.OneUnfinished)
    {call : Nat}
    (before : conn.BeforeSending call) :
    conn.responseRaw = none := by
  have unawaited (asker : Nat) : ¬conn.AwaitedBy asker := by
    intro awaited
    have waiting := (awaited asker).mpr rfl
    have unfinished : conn.Unfinished call := by
      rcases before with entering | queued
      · exact ⟨_, entering, rfl⟩
      · exact ⟨_, queued, rfl⟩
    obtain rfl := one asker call ⟨_, waiting, rfl⟩ unfinished
    rcases before with entering | queued
    · simp [entering] at waiting
    · simp [queued] at waiting
  cases sound.exchange with
  | idle _ _ empty _ _ => exact empty
  | asked _ _ _ empty _ _ => exact empty
  | delivered asker _ _ _ _ _ awaited _ =>
      exact absurd awaited (unawaited asker)
  | broken _ _ held =>
      refine Option.eq_none_iff_forall_ne_some.mpr fun message isHeld => ?_
      obtain ⟨_, _, asker, _, awaited⟩ := held message isHeld
      exact unawaited asker awaited

/-! ## The invariant -/

/-- What holds of a connection whose file table was `start` when it opened. -/
structure NoticesSound (start : NameServer) (conn : Connection) : Prop where
  exchange : ExchangeSound conn
  inOrder : conn.InOrder
  one : conn.OneUnfinished
  applied : noticesApplied ss conn.seen start = some conn.ns

namespace NoticesSound

variable {ss} {start : NameServer} {conn : Connection}

theorem opened (ns : NameServer) :
    NoticesSound ss ns (.opened .syncing ns) where
  exchange := .opened .syncing ns
  inOrder _ := rfl
  one first second unfinished := by
    obtain ⟨phase, held, _⟩ := unfinished
    simp [Connection.opened] at held
  applied := rfl

theorem notify
    (sound : NoticesSound ss start conn)
    {message : SsMessage}
    (notice : message.answered = none)
    {filesSent : Bool}
    (next : SyncsInOrder conn.filesSent [message] filesSent) :
    NoticesSound ss start
      { conn.notify message with filesSent := filesSent } where
  exchange :=
    (sound.exchange.notify notice).of_same rfl rfl rfl rfl rfl rfl rfl id rfl
  inOrder reading := (sound.inOrder reading).append next
  one := sound.one
  applied := sound.applied

theorem answer
    (sound : NoticesSound ss start conn)
    (fields : List CString) :
    NoticesSound ss start (conn.answer fields) := by
  have exchange := sound.exchange.answer fields
  unfold Connection.answer at exchange ⊢
  split
  · exact sound
  · next call rest asked =>
    rw [asked] at exchange
    exact
      { exchange := exchange
        inOrder := fun reading =>
          (sound.inOrder reading).append
            (show SyncsInOrder conn.filesSent [.reply call fields]
              conn.filesSent from rfl)
        one := sound.one
        applied := sound.applied }

theorem resume
    (sound : NoticesSound ss start conn)
    (call : Nat)
    (sending : Sending) :
    NoticesSound ss start (conn.resume call sending) := by
  obtain ⟨stream, filesSent, reader, ns, seen⟩ :=
    resume_frame call sending conn
  refine
    { exchange :=
        sound.exchange.resume
          (fun before _ =>
            sound.exchange.empty_of_beforeSending sound.one before)
          sending
      inOrder := ?_
      one := sound.one.resume call sending
      applied := ?_ }
  · unfold Connection.InOrder
    rw [stream, filesSent, reader]
    exact sound.inOrder
  · rw [seen, ns]
    exact sound.applied

theorem read
    (sound : NoticesSound ss start conn)
    (now : Int)
    (apart : conn.ReadsNoticesApart (.read now)) :
    NoticesSound ss start (conn.read ss now) := by
  by_cases ended : conn.reader = .ended
  · rw [Connection.read_ended ss now ended]
    exact sound
  cases stream : conn.stream with
  | nil =>
      rw [Connection.read_nil ss now stream]
      exact sound
  | cons message rest =>
      have inOrder := stream ▸ sound.inOrder ended
      rw [Connection.read_cons ss now ended stream]
      cases answered : message.answered with
      | some call =>
          obtain ⟨fields, rfl⟩ : ∃ fields, message = .reply call fields := by
            cases message <;> simp_all [SsMessage.answered]
          obtain ⟨awaiting, exchange⟩ :=
            sound.exchange.dispatch ended stream
              (conn.seen ++ [(now, .reply call fields)])
          simp only [awaiting, ↓reduceIte]
          exact
            { exchange := exchange
              inOrder := fun _ => inOrder
              one := sound.one
              applied := by
                simp [Connection.dispatch, Connection.freeResponse,
                  noticesApplied_append, sound.applied, noticesApplied,
                  noticeApplied] }
      | none =>
          obtain ⟨unwaited, takes⟩ :=
            apart message (by simp [stream]) answered ended
          obtain ⟨reader, ns, applied, reading, later, handled⟩ :=
            @handle_notice ss
              { conn with
                stream := rest
                seen := conn.seen ++ [(now, message)] }
              message rest answered ended inOrder takes now
          have undispatched :
              ¬(conn.awaitingResponse && !conn.responseReady) = true := by
            rcases unwaited with clear | ready
            · simp [clear]
            · simp [ready]
          simp only [if_neg undispatched, handled]
          exact
            { exchange :=
                sound.exchange.of_same rfl rfl rfl rfl rfl rfl
                  (by simp [Connection.outstanding, stream, answered])
                  (fun wasEnded => absurd wasEnded ended) rfl
              inOrder := fun _ => later
              one := sound.one
              applied := by
                simp [noticesApplied_append, sound.applied, noticesApplied,
                  applied] }

theorem fail (sound : NoticesSound ss start conn) :
    NoticesSound ss start conn.fail := by
  have exchange := sound.exchange.fail
  unfold Connection.fail at exchange ⊢
  simp only at exchange ⊢
  split
  · next waited =>
    rw [if_pos waited] at exchange
    exact ⟨exchange, fun reading => absurd rfl reading, sound.one,
      sound.applied⟩
  · next settled =>
    rw [if_neg settled] at exchange
    exact ⟨exchange, fun reading => absurd rfl reading, sound.one,
      sound.applied⟩

theorem step
    (sound : NoticesSound ss start conn)
    {event : ConnectionEvent}
    (alone : conn.OneAtATime event)
    (apart : conn.ReadsNoticesApart event) :
    NoticesSound ss start (connectionStep ss conn event) := by
  cases event with
  | call =>
      exact
        { exchange := sound.exchange.call
          inOrder := sound.inOrder
          one := .call alone
          applied := sound.applied }
  | resume call sending =>
      exact sound.resume call sending
  | answer fields =>
      exact sound.answer fields
  | hasFile fields =>
      simp only [connectionStep]
      split
      · exact sound
      · next unsent =>
        exact sound.notify rfl ⟨Bool.eq_false_of_not_eq_true unsent, rfl⟩
  | filesDone =>
      simp only [connectionStep]
      split
      · exact sound
      · next unsent =>
        exact sound.notify rfl ⟨Bool.eq_false_of_not_eq_true unsent, rfl⟩
  | writeComplete filename size words chars =>
      exact sound.notify rfl ⟨rfl, rfl⟩
  | read now =>
      exact sound.read now apart
  | fail =>
      exact sound.fail

end NoticesSound

/--
With one call at a time, every call that succeeds returns the reply to its own
request, and every notice read is applied to the file table, as long as no
notice is read while a call waits, no `WRITE_COMPLETE` is read during the file
sync and the table has a place for every file the sync names.
-/
theorem notices_apart_of_readsNoticesApart
    (ns : NameServer)
    (events : List ConnectionEvent)
    (alone :
      GuardedRun (connectionStep ss) Connection.OneAtATime
        (.opened .syncing ns) events)
    (apart :
      GuardedRun (connectionStep ss) Connection.ReadsNoticesApart
        (.opened .syncing ns) events) :
    let final := runFrom (connectionStep ss) (.opened .syncing ns) events
    final.OwnReplies ∧ final.lost = [] ∧
      noticesApplied ss final.seen ns = some final.ns := by
  have preserved :
      ∀ conn event,
        NoticesSound ss ns conn →
          conn.OneAtATime event ∧ conn.ReadsNoticesApart event →
            NoticesSound ss ns (connectionStep ss conn event) :=
    fun conn event sound allowed => sound.step allowed.1 allowed.2
  have reached :=
    GuardedRun.invariant preserved (NoticesSound.opened ns) (alone.and apart)
  exact ⟨reached.exchange.ownReplies, reached.exchange.nothingLost,
    reached.applied⟩

/-- A file sync, a commit and a call, one after the other. -/
def syncedThenCalled : List ConnectionEvent :=
  [.hasFile
      [str "SS_HAS_FILE", str "notes", str "alice", [], [], str "0", str "0",
        str "0"],
    .filesDone, .read 1, .read 2,
    .writeComplete (str "notes") (str "5") (str "1") (str "5"), .read 3,
    .call, .resume 0 .sent, .answer [str "OK"], .read 4, .resume 0 .sent]

theorem notices_apart_syncedThenCalled :
    let final :=
      runFrom (connectionStep someStorageServer) (.opened .syncing nsInit)
        syncedThenCalled
    final.OwnReplies ∧ final.lost = [] ∧
      noticesApplied someStorageServer final.seen nsInit = some final.ns :=
  notices_apart_of_readsNoticesApart someStorageServer nsInit syncedThenCalled
    (by decide +kernel) (by decide +kernel)

/-- `SS_COPY`: its `WRITE_COMPLETE` comes before its reply. -/
def copiedWhileWaiting : List ConnectionEvent :=
  [.filesDone, .read 0, .call, .resume 0 .sent,
    .writeComplete (str "copy") (str "5") (str "1") (str "5"),
    .answer [str "OK"], .read 1, .resume 0 .sent, .read 2]

/-- The call returns the notice, and the reply to it is lost. -/
theorem notice_returned_copiedWhileWaiting :
    let final :=
      runFrom (connectionStep someStorageServer) (.opened .syncing nsInit)
        copiedWhileWaiting
    GuardedRun (connectionStep someStorageServer) Connection.OneAtATime
        (.opened .syncing nsInit) copiedWhileWaiting ∧
      final.calls =
        [.finished
          (.returned
            (.writeComplete
              [str "WRITE_COMPLETE", str "copy", str "5", str "1",
                str "5"]))] ∧
      ¬final.OwnReplies ∧
      final.lost = [.reply 0 [str "OK"]] := by
  refine ⟨by decide +kernel, rfl, fun own => ?_, rfl⟩
  have wrong := own 0 _ rfl
  cases wrong

end DistributedDocs
