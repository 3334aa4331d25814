import DistributedDocs.GuardedRun
import DistributedDocs.NameServerCoherence
import DistributedDocs.Numerals
import DistributedDocs.StorageUndo

namespace DistributedDocs

/-!
# The statistics of files

The name server keeps the size and the numbers of words and characters of each
file, and the storage servers send `WRITE_COMPLETE` messages to keep them
right.  These share their connection with the replies to the name server's own
requests: whatever comes first while a `COPY` waits is taken for its reply.
-/

/-! ## Statistics -/

/-- Size, words and characters. -/
structure Statistics where
  size : Int
  words : Int
  chars : Int
  deriving DecidableEq

/-- What `ss_sync_metadata_to_ns` counts. -/
def contentStatistics (bytes : RawBytes) : Statistics :=
  ⟨bytes.length, countWords (cString bytes), countChars (cString bytes)⟩

/-- What the name server has stored. -/
def FileMetadata.statistics (file : FileMetadata) : Statistics :=
  ⟨file.size, file.wordCount, file.charCount⟩

/-- The statistics a message brings for a file. -/
def noticedStatistics
    (filename : CString)
    (msg : List CString) : Option Statistics :=
  match msg with
  | type :: name :: size :: words :: chars :: _ =>
      if type = str "WRITE_COMPLETE" ∧ name = filename then
        some ⟨atoll size, atoll words, atoll chars⟩
      else
        none
  | _ => none

/-- The statistics of a file once all these messages have been applied. -/
def settledStatistics
    (filename : CString)
    (messages : List (List CString))
    (stored : Statistics) : Statistics :=
  messages.foldl
    (fun known msg => (noticedStatistics filename msg).getD known) stored

/-! ## The servers and their connections -/

/-- A command that creates, deletes and renames nothing. -/
def SsCommand.keepsNames : SsCommand → Bool
  | .createFile _ | .deleteFile _ | .ssRename _ _ => false
  | _ => true

/-- The commands on the content of files, and what belongs to them. -/
abbrev ContentCommand :=
  { command : SsCommand // command.keepsNames = true }

/-- The name server is told the outcome of a copy. -/
def SsCommand.isCopy : SsCommand → Bool
  | .ssCopy _ _ => true
  | _ => false

/-- The fields of the messages to the name server. -/
def nameServerMessages (messages : List Message) : List (List CString) :=
  (messages.filter fun message => message.receiver = .nameServer).map
    Message.fields

/--
A storage server, what it has sent and the name server has not read yet, and
whether a `COPY` waits for its reply.
-/
structure StatisticsHost where
  info : StorageServerInfo
  server : StorageServer
  unread : List (List CString)
  awaiting : Bool

/-- The name server and the storage servers. -/
structure StatisticsState where
  ns : NameServer
  hosts : List StatisticsHost

/-- A command is handled by a storage server, or the name server reads. -/
inductive StatisticsEvent where
  | handles (host : Nat) (now : Int) (command : ContentCommand)
  | reads (host : Nat) (now : Int)

/-- The storage server handles a command and sends its messages. -/
def StatisticsHost.handles
    (now : Int)
    (command : ContentCommand)
    (host : StatisticsHost) : StatisticsHost :=
  let after := ssStep { host.server with sent := [] } ⟨now, command⟩
  { host with
    server := after
    unread := host.unread ++ nameServerMessages after.sent
    awaiting := command.1.isCopy }

/-- The main loop of `run_ss_loop` with a message no call waits for. -/
def applyNotice
    (now : Int)
    (info : StorageServerInfo)
    (msg : List CString)
    (ns : NameServer) : NameServer :=
  if msg.head? = some (str "WRITE_COMPLETE") then
    applyWriteComplete now info msg ns
  else
    ns

/--
One step.  Commands come one at a time: none while a `COPY` waits for its
reply.
-/
def statisticsStep
    (state : StatisticsState) : StatisticsEvent → StatisticsState
  | .handles place now command =>
      if state.hosts.any StatisticsHost.awaiting then
        state
      else
        { state with
          hosts := state.hosts.modify place (.handles now command) }
  | .reads place now =>
      match state.hosts[place]? with
      | none => state
      | some host =>
          match host.unread with
          | [] => state
          | msg :: rest =>
              { ns :=
                  if host.awaiting then state.ns
                  else applyNotice now host.info msg state.ns
                hosts :=
                  state.hosts.set place
                    { host with unread := rest, awaiting := false } }

/-! ## What is required -/

/--
Every file's statistics are those of its content on the storage server that
has a record of it.  No file is larger than a `long long` can say.
-/
def StatisticsFollow (state : StatisticsState) : Prop :=
  ∀ host ∈ state.hosts, ∀ rec ∈ host.server.files, ∀ file ∈ state.ns.files,
    file.filename = rec.filename →
      ∀ bytes ∈ host.server.disk.bytesAt rec.filepath,
        FitsLongLong bytes.length →
          file.statistics = contentStatistics bytes

/-- Every message has been read, and no command is in progress. -/
def Settled (state : StatisticsState) : Prop :=
  ∀ host ∈ state.hosts, host.unread = [] ∧ host.awaiting = false

/--
Where a run starts: disk operations succeed, each name is that of one record
of one server, and the statistics are right.
-/
structure StatisticsStart (state : StatisticsState) : Prop where
  registry : Registry state.ns
  placed : ∀ host ∈ state.hosts, RecordsPlaced host.server
  undisturbed : ∀ host ∈ state.hosts, host.server.disk.outcomes = []
  names_nodup :
    (state.hosts.flatMap fun host =>
      host.server.files.map FileRecord.filename).Nodup
  settled : Settled state
  follow : StatisticsFollow state

/-- The record whose content a command replaces, and the new content. -/
def restoredContent
    (ss : StorageServer)
    (command : SsCommand) : Option (FileRecord × RawBytes) :=
  match command with
  | .undo _ (_ :: username :: filename :: _) =>
      (admittedRecord ss username filename).bind fun rec =>
        if rec.undoAvailable = 0 then none
        else
          (ss.disk.bytesAt rec.undopath).map fun snapshot =>
            (rec, rawBytes (cString snapshot))
  | .revert _ (_ :: username :: filename :: tag :: _) =>
      (admittedRecord ss username filename).bind fun rec =>
        if tagCopy tag = [] then none else
        (ssFindCheckpoint rec (tagCopy tag)).bind fun ckpt =>
          (ss.disk.bytesAt ckpt.filepath).bind fun checkpointed =>
            (ss.disk.bytesAt rec.filepath).map fun current =>
              (rec,
                if ckpt.filepath = rec.filepath then []
                else if ckpt.filepath = rec.undopath then current
                else checkpointed)
  | _ => none

/-- The commands that write the content of the record they work on. -/
def SsCommand.writesContent : SsCommand → Bool
  | .etirw _ | .undo _ _ | .revert _ _ | .ssCopy _ _ => true
  | _ => false

/--
What `UNDO` and `REVERT` give back has the statistics of what it replaces, and
no other record's content lies where a command writes.
-/
structure HandlesNoticed
    (ss : StorageServer)
    (event : SsEvent) : Prop where
  restored :
    ∀ target ∈ restoredContent ss event.command,
      (ss.disk.bytesAt target.1.filepath).map contentStatistics =
        some (contentStatistics target.2)
  others :
    ∀ rec ∈ ss.files, rec.filepath ∈ writtenPaths ss event →
      event.subject ss = some rec ∧ event.command.writesContent = true

/--
A step that is handled keeps the name server informed, and a reply that is
read takes no statistics away that are still needed.
-/
def KeepsStatistics
    (state : StatisticsState) : StatisticsEvent → Prop
  | .handles place now command =>
      ∀ host ∈ state.hosts[place]?,
        state.hosts.any StatisticsHost.awaiting = false →
          HandlesNoticed { host.server with sent := [] } ⟨now, command⟩
  | .reads place _ =>
      ∀ host ∈ state.hosts[place]?, host.awaiting = true →
        ∀ file ∈ state.ns.files,
          settledStatistics file.filename host.unread.tail file.statistics =
            settledStatistics file.filename host.unread file.statistics

instance StatisticsFollow.decidable
    (state : StatisticsState) :
    Decidable (StatisticsFollow state) := by
  unfold StatisticsFollow
  infer_instance

instance Settled.decidable
    (state : StatisticsState) :
    Decidable (Settled state) := by
  unfold Settled
  infer_instance

instance HandlesNoticed.decidable
    (ss : StorageServer)
    (event : SsEvent) :
    Decidable (HandlesNoticed ss event) :=
  decidable_of_iff
    ((∀ target ∈ restoredContent ss event.command,
        (ss.disk.bytesAt target.1.filepath).map contentStatistics =
          some (contentStatistics target.2)) ∧
      ∀ rec ∈ ss.files, rec.filepath ∈ writtenPaths ss event →
        event.subject ss = some rec ∧ event.command.writesContent = true)
    ⟨fun ⟨restored, others⟩ => ⟨restored, others⟩,
      fun ⟨restored, others⟩ => ⟨restored, others⟩⟩

instance KeepsStatistics.decidable
    (state : StatisticsState) :
    ∀ event, Decidable (KeepsStatistics state event)
  | .handles place now command =>
      inferInstanceAs
        (Decidable
          (∀ host ∈ state.hosts[place]?,
            state.hosts.any StatisticsHost.awaiting = false →
              HandlesNoticed { host.server with sent := [] } ⟨now, command⟩))
  | .reads place _ =>
      inferInstanceAs
        (Decidable
          (∀ host ∈ state.hosts[place]?, host.awaiting = true →
            ∀ file ∈ state.ns.files,
              settledStatistics file.filename host.unread.tail
                  file.statistics =
                settledStatistics file.filename host.unread file.statistics))

/-! ## Messages and statistics -/

theorem settledStatistics_append
    (filename : CString)
    (first second : List (List CString))
    (stored : Statistics) :
    settledStatistics filename (first ++ second) stored =
      settledStatistics filename second
        (settledStatistics filename first stored) := by
  simp [settledStatistics, List.foldl_append]

/-- Messages about other files change nothing. -/
theorem settledStatistics_of_none
    {filename : CString}
    {messages : List (List CString)}
    (silent : ∀ msg ∈ messages, noticedStatistics filename msg = none)
    (stored : Statistics) :
    settledStatistics filename messages stored = stored := by
  induction messages with
  | nil => rfl
  | cons msg rest inductionHypothesis =>
      have first := silent msg List.mem_cons_self
      rw [settledStatistics, List.foldl_cons, first, Option.getD_none]
      exact inductionHypothesis fun later member =>
        silent later (List.mem_cons_of_mem _ member)

/-- Only `WRITE_COMPLETE` brings statistics. -/
theorem noticedStatistics_of_other
    {msg : List CString}
    (other : msg.head? ≠ some (str "WRITE_COMPLETE"))
    (filename : CString) :
    noticedStatistics filename msg = none := by
  match msg with
  | type :: name :: size :: words :: chars :: rest =>
      have different : type ≠ str "WRITE_COMPLETE" := fun same =>
        other (congrArg some same)
      simp [noticedStatistics, different]
  | [] | [_] | [_, _] | [_, _, _] | [_, _, _, _] => rfl

theorem settledStatistics_nameServerMessages
    (filename : CString)
    (messages : List Message)
    (stored : Statistics) :
    settledStatistics filename (nameServerMessages messages) stored =
      settledStatistics filename (writeCompletes messages) stored := by
  induction messages generalizing stored with
  | nil => rfl
  | cons message rest inductionHypothesis =>
      simp only [settledStatistics, nameServerMessages, writeCompletes,
        List.filter_cons] at inductionHypothesis ⊢
      by_cases toServer : message.receiver = .nameServer
      · by_cases notice : message.fields.head? = some (str "WRITE_COMPLETE")
        · simpa [toServer, notice] using inductionHypothesis _
        · have silent := noticedStatistics_of_other notice filename
          simpa [toServer, notice, silent] using inductionHypothesis stored
      · simpa [toServer] using inductionHypothesis stored

/-- A message to the name server that brings statistics is a `WRITE_COMPLETE`. -/
theorem mem_writeCompletes
    {messages : List Message}
    {msg : List CString}
    (sent : msg ∈ nameServerMessages messages)
    {filename : CString}
    (brings : noticedStatistics filename msg ≠ none) :
    msg ∈ writeCompletes messages := by
  obtain ⟨message, isMessage, rfl⟩ := List.mem_map.mp sent
  obtain ⟨member, toServer⟩ := List.mem_filter.mp isMessage
  refine List.mem_map.mpr ⟨message, List.mem_filter.mpr ⟨member, ?_⟩, rfl⟩
  rw [Bool.and_eq_true]
  refine ⟨toServer, decide_eq_true ?_⟩
  by_contra other
  exact brings (noticedStatistics_of_other other filename)

/-- A `WRITE_COMPLETE` is about the file it names. -/
theorem filename_of_noticed
    {filename : CString}
    {rec : FileRecord}
    {bytes : RawBytes}
    (brings : noticedStatistics filename (writeComplete rec bytes) ≠ none) :
    rec.filename = filename := by
  by_contra other
  exact brings (by simp [noticedStatistics, writeComplete, other])

/-- It brings the statistics of the content. -/
theorem noticedStatistics_writeComplete
    (rec : FileRecord)
    {bytes : RawBytes}
    (fits : FitsLongLong bytes.length) :
    noticedStatistics rec.filename (writeComplete rec bytes) =
      some (contentStatistics bytes) := by
  have readBack :
      ∀ count : Nat, count ≤ bytes.length → atoll (decimal count) = count := by
    intro count bound
    obtain ⟨_, high⟩ := fits
    exact atoll_decimal ⟨by omega, by omega⟩
  simp only [noticedStatistics, writeComplete, and_self, if_true,
    contentStatistics, readBack _ (Nat.le_refl _),
    readBack _ (countWords_cString_le bytes),
    readBack _ (countChars_cString_le bytes)]

/-! ## What a command does to the statistics -/

/--
After a command the names are those before it, and each content is reported by
the only notice, or has the statistics it had, and no notice is about it.
-/
structure ContentStep
    (ss after : StorageServer)
    (notices : List (List CString)) : Prop where
  names_eq :
    after.files.map FileRecord.filename = ss.files.map FileRecord.filename
  followed :
    ∀ r ∈ after.files, ∀ bytes,
      after.disk.bytesAt r.filepath = some bytes →
        (∃ rec : FileRecord, rec.filename = r.filename ∧
            notices = [writeComplete rec bytes]) ∨
          ∃ rec ∈ ss.files, rec.filename = r.filename ∧
            (∀ msg ∈ notices, noticedStatistics r.filename msg = none) ∧
              (ss.disk.bytesAt rec.filepath).map contentStatistics =
                some (contentStatistics bytes)
  about :
    ∀ msg ∈ notices, ∀ filename, noticedStatistics filename msg ≠ none →
      ∃ rec ∈ ss.files, rec.filename = filename

namespace ContentStep

variable {ss after : StorageServer}

/-- No record and no content changes. -/
theorem of_same
    (files_eq : after.files = ss.files)
    (content :
      ∀ rec ∈ ss.files,
        after.disk.bytesAt rec.filepath = ss.disk.bytesAt rec.filepath) :
    ContentStep ss after [] where
  names_eq := by rw [files_eq]
  followed := by
    intro r member bytes present
    rw [files_eq] at member
    rw [content r member] at present
    exact .inr ⟨r, member, rfl, by simp, by simp [present]⟩
  about := by simp

/-- One record is stored again, and the content of the others is as before. -/
theorem of_stored
    (placed : RecordsPlaced ss)
    (names : (ss.files.map FileRecord.filename).Nodup)
    {rec stored : FileRecord}
    (present : rec ∈ ss.files)
    (files_eq : after.files = storeRecord stored ss.files)
    (address : stored.address = rec.address)
    (filename : stored.filename = rec.filename)
    (filepath : stored.filepath = rec.filepath)
    (others :
      ∀ other ∈ ss.files, other ≠ rec →
        after.disk.bytesAt other.filepath = ss.disk.bytesAt other.filepath)
    {notices : List (List CString)}
    (own :
      ∀ bytes, after.disk.bytesAt rec.filepath = some bytes →
        notices = [writeComplete rec bytes] ∨
          notices = [] ∧
            (ss.disk.bytesAt rec.filepath).map contentStatistics =
              some (contentStatistics bytes))
    (about : ∀ msg ∈ notices, ∃ bytes, msg = writeComplete rec bytes) :
    ContentStep ss after notices where
  names_eq := by
    rw [files_eq, storeRecord, List.map_map]
    refine List.map_congr_left fun node member => ?_
    simp only [Function.comp_apply]
    split
    · next same =>
        obtain rfl :=
          eq_of_address placed.addresses_nodup member present
            (same.trans address)
        exact filename
    · rfl
  followed := by
    intro r member bytes holds
    rw [files_eq] at member
    rcases mem_storeRecord member with ⟨old, elsewhere⟩ | rfl
    · have different : r ≠ rec := fun same =>
        elsewhere (same ▸ address.symm)
      rw [others r old different] at holds
      refine .inr ⟨r, old, rfl, fun msg isNotice => ?_, by simp [holds]⟩
      obtain ⟨content, rfl⟩ := about msg isNotice
      by_contra noticed
      exact different (List.inj_on_of_nodup_map names old present
        (filename_of_noticed noticed).symm)
    · rw [filepath] at holds
      rcases own bytes holds with noticed | ⟨rfl, kept⟩
      · exact .inl ⟨rec, filename.symm, noticed⟩
      · exact .inr ⟨rec, present, filename.symm, by simp, kept⟩
  about := by
    intro msg isNotice name noticed
    obtain ⟨content, rfl⟩ := about msg isNotice
    exact ⟨rec, present, filename_of_noticed noticed⟩

end ContentStep

/-! ## What is given back -/

section Restored

variable
  {ss : StorageServer}
  (placed : RecordsPlaced ss)
  (undisturbed : ss.disk.outcomes = [])

/-- An accepted `UNDO` gives back the snapshot. -/
theorem restored_of_undo
    {now : Int}
    {fd : Nat}
    {msg : List CString}
    {rec : FileRecord}
    {snapshot : RawBytes}
    (accepted : Accepted ss ⟨now, .undo fd msg⟩ = true)
    (subject : SsEvent.subject ss ⟨now, .undo fd msg⟩ = some rec)
    (available : rec.undoAvailable ≠ 0)
    (kept : ss.disk.bytesAt rec.undopath = some snapshot) :
    restoredContent ss (.undo fd msg) =
      some (rec, rawBytes (cString snapshot)) := by
  match msg with
  | type :: username :: filename :: rest =>
      cases admitted : admittedRecord ss username filename with
      | none =>
          obtain ⟨refusal, refused⟩ :=
            handler_of_not_admitted admitted (undoRecord now fd username)
          have handled :
              SsEvent.handler
                  ⟨now, .undo fd (type :: username :: filename :: rest)⟩ ss =
                .error refusal ss :=
            refused
          rw [(refused_of_handler handled).1] at accepted
          cases accepted
      | some found =>
          obtain rfl : found = rec :=
            Option.some.inj ((admittedRecord_found admitted).symm.trans subject)
          simp [restoredContent, admitted, available, kept]
  | [] | [_] | [_, _] => cases subject

include placed undisturbed in
/-- An accepted `REVERT` gives back the snapshot of the checkpoint. -/
theorem restored_of_revert
    {now : Int}
    {fd : Nat}
    {msg : List CString}
    {rec : FileRecord}
    (accepted : Accepted ss ⟨now, .revert fd msg⟩ = true)
    (subject : SsEvent.subject ss ⟨now, .revert fd msg⟩ = some rec) :
    ∃ restored,
      restoredContent ss (.revert fd msg) = some (rec, restored) ∧
        (ssStep ss ⟨now, .revert fd msg⟩).disk.bytesAt rec.filepath =
          some restored := by
  match msg with
  | type :: username :: filename :: tag :: rest =>
      have notAccepted :
          ∀ refusal,
            SsEvent.handler
                ⟨now, .revert fd (type :: username :: filename :: tag :: rest)⟩
                ss ≠ .error refusal ss := by
        intro refusal refused
        rw [(refused_of_handler refused).1] at accepted
        cases accepted
      by_cases empty : tagCopy tag = []
      · exact absurd (by simp [SsEvent.handler, handleClientRevert, empty])
          (notAccepted
            ⟨errInvalidRequest, str "Checkpoint tag cannot be empty"⟩)
      have handled :
          SsEvent.handler
              ⟨now, .revert fd (type :: username :: filename :: tag :: rest)⟩
              ss =
            (writableIdleRecord username filename >>=
              revertRecord now fd username (tagCopy tag)) ss := by
        simp [SsEvent.handler, handleClientRevert, empty]
      cases admitted : admittedRecord ss username filename with
      | none =>
          obtain ⟨refusal, refused⟩ :=
            handler_of_not_admitted admitted
              (revertRecord now fd username (tagCopy tag))
          exact absurd (handled.trans refused) (notAccepted refusal)
      | some found =>
          obtain rfl : found = rec :=
            Option.some.inj ((admittedRecord_found admitted).symm.trans subject)
          have runs := handled.trans (handler_of_admitted admitted _)
          have isPlaced :=
            placed.wellPlaced found
              (ssFindFile_filename (admittedRecord_found admitted)).1
          rcases revertRecord_refused_or_found undisturbed now fd username
              (tagCopy tag) found with
            ⟨refusal, refused⟩ | ⟨ckpt, checkpointed, before, listed, stored,
              present⟩
          · exact absurd (runs.trans refused) (notAccepted refusal)
          have done :=
            runs.trans
              (revertRecord_restores undisturbed now fd username
                isPlaced.undopath_apart.1.symm listed stored present)
          rw [(accepted_of_handler done).2]
          refine ⟨_, by
            simp [restoredContent, admitted, empty, listed, stored, present]
            rfl, ?_⟩
          simp only [FileRecord.diskAfter]
          rw [Disk.bytesAt_set_of_ne isPlaced.metapath_ne,
            Disk.bytesAt_set_same]
  | [] | [_] | [_, _] => cases subject
  | [type, username, filename] =>
      have refused :
          SsEvent.handler ⟨now, .revert fd [type, username, filename]⟩ ss =
            .error ⟨errInvalidRequest,
              str "Missing fields in REQ_REVERT"⟩ ss :=
        rfl
      rw [(refused_of_handler refused).1] at accepted
      cases accepted

/-- A content outside what the command writes is as before. -/
theorem HandlesNoticed.kept
    {event : SsEvent}
    (noticed : HandlesNoticed ss event)
    {rec : FileRecord}
    (present : rec ∈ ss.files)
    (notWritten :
      ¬(event.subject ss = some rec ∧ event.command.writesContent = true)) :
    (ssStep ss event).disk.bytesAt rec.filepath =
      ss.disk.bytesAt rec.filepath :=
  (stepEffect ss event).disk_agrees.bytesAt_eq rec.filepath fun written =>
    notWritten (noticed.others rec present written)

include placed undisturbed in
/-- What a command does when it is noticed. -/
theorem contentStep_ssStep
    (names : (ss.files.map FileRecord.filename).Nodup)
    (unsent : ss.sent = [])
    {event : SsEvent}
    (keepsNames : event.command.keepsNames = true)
    (noticed : HandlesNoticed ss event) :
    ContentStep ss (ssStep ss event) (writeCompletes (ssStep ss event).sent) := by
  have sends :
      ∀ {files disk statistics},
        EndsWith ss (ssStep ss event) files disk statistics →
          writeCompletes (ssStep ss event).sent = statistics := by
    intro files disk statistics ends
    rw [ends.writeCompletes_eq, unsent]
    rfl
  have others :
      ∀ {rec}, event.subject ss = some rec →
        ∀ other ∈ ss.files, other ≠ rec →
          (ssStep ss event).disk.bytesAt other.filepath =
            ss.disk.bytesAt other.filepath := by
    intro rec subject other present different
    refine noticed.kept present fun written => different ?_
    exact Option.some.inj (written.1.symm.trans subject)
  have restores :
      ∀ {rec restored}, rec ∈ ss.files →
        restoredContent ss event.command = some (rec, restored) →
          (ssStep ss event).disk.bytesAt rec.filepath = some restored →
            ∀ bytes,
              (ssStep ss event).disk.bytesAt rec.filepath = some bytes →
                (ss.disk.bytesAt rec.filepath).map contentStatistics =
                  some (contentStatistics bytes) := by
    intro rec restored present target given bytes holds
    obtain rfl : restored = bytes :=
      Option.some.inj (given.symm.trans holds)
    exact noticed.restored _ target
  have outcome := stepOutcome placed undisturbed event
  obtain ⟨now, command⟩ := event
  cases outcome with
  | idle noSubject ends =>
      rw [sends ends]
      exact .of_same ends.files_eq fun rec _ => by rw [ends.disk_eq]
  | @committed fd rec username newContent bytes isEtirw accepted subject present
      ends =>
      have member := mem_of_subject subject
      have isPlaced := placed.wellPlaced rec member
      rw [sends ends]
      refine .of_stored placed names member ends.files_eq rfl rfl rfl
        (others subject) (fun content holds => .inl ?_)
        fun msg isNotice => ⟨_, List.mem_singleton.mp isNotice⟩
      rw [ends.disk_eq, FileRecord.diskAfter,
        Disk.bytesAt_set_of_ne isPlaced.metapath_ne,
        Disk.bytesAt_set_same] at holds
      rw [Option.some.inj holds]
  | @reverted fd msg rec username before restored isRevert accepted subject
      present ends =>
      obtain rfl := isRevert
      have member := mem_of_subject subject
      rw [sends ends]
      obtain ⟨content, target, given⟩ :=
        restored_of_revert placed undisturbed accepted subject
      exact .of_stored placed names member ends.files_eq rfl rfl rfl
        (others subject)
        (fun bytes holds => .inr ⟨rfl, restores member target given bytes holds⟩)
        (by simp)
  | @undone fd msg rec username snapshot isUndo accepted subject available kept
      ends =>
      obtain rfl := isUndo
      have member := mem_of_subject subject
      have isPlaced := placed.wellPlaced rec member
      have given :
          (ssStep ss ⟨now, .undo fd msg⟩).disk.bytesAt rec.filepath =
            some (rawBytes (cString snapshot)) := by
        rw [ends.disk_eq, Disk.bytesAt_set_of_ne isPlaced.metapath_ne,
          Disk.bytesAt_set_same]
      rw [sends ends]
      exact .of_stored placed names member ends.files_eq rfl rfl rfl
        (others subject)
        (fun bytes holds => .inr ⟨rfl,
          restores member (restored_of_undo accepted subject available kept)
            given bytes holds⟩)
        (by simp)
  | notCheckpointed isCheckpoint refused target ends =>
      obtain rfl := isCheckpoint
      rw [sends ends]
      exact .of_same ends.files_eq fun rec present =>
        noticed.kept present fun written =>
          absurd written.2 Bool.false_ne_true
  | @checkpointed fd type username filename tag rest rec ckptPath bytes
      isCheckpoint accepted target present ends =>
      obtain rfl := isCheckpoint
      have member : rec ∈ ss.files :=
        (@checkpointTarget_found ss fd now _ rec ckptPath target).1
      have kept :
          ∀ other ∈ ss.files,
            (ssStep ss
              ⟨now, .checkpoint fd
                (type :: username :: filename :: tag :: rest)⟩).disk.bytesAt
                other.filepath = ss.disk.bytesAt other.filepath :=
        fun other there => noticed.kept there fun written =>
          absurd written.2 Bool.false_ne_true
      rw [sends ends]
      refine .of_stored placed names member ends.files_eq rfl rfl rfl
        (fun other there _ => kept other there)
        (fun content holds => .inr ⟨rfl, ?_⟩) (by simp)
      rw [← kept rec member, holds, Option.map_some]
  | @notCopied peer msg srcRec destRec isCopy refused target ends =>
      obtain rfl := isCopy
      have found :
          destRec ∈ ss.files ∧
            SsEvent.subject ss ⟨now, .ssCopy peer msg⟩ = some destRec :=
        copyTarget_found target
      obtain ⟨member, subject⟩ := found
      rw [sends ends]
      refine .of_same ends.files_eq fun rec present => ?_
      by_cases same : rec = destRec
      · subst same
        rw [ends.disk_eq, Disk.bytesAt_set_of_ne]
        exact (placed.wellPlaced rec member).filepath_ne_copyTempPath
          ss.storagePath.property
      · exact others subject rec present same
  | @copied peer msg srcRec destRec username bytes isCopy accepted target ends =>
      obtain rfl := isCopy
      have found :
          destRec ∈ ss.files ∧
            SsEvent.subject ss ⟨now, .ssCopy peer msg⟩ = some destRec :=
        copyTarget_found target
      obtain ⟨member, subject⟩ := found
      have isPlaced := placed.wellPlaced destRec member
      rw [sends ends]
      refine .of_stored placed names member ends.files_eq rfl rfl rfl
        (others subject) (fun content holds => .inl ?_)
        fun msg isNotice => ⟨_, List.mem_singleton.mp isNotice⟩
      rw [ends.disk_eq, Disk.bytesAt_set_of_ne isPlaced.metapath_ne,
        Disk.bytesAt_set_same] at holds
      rw [Option.some.inj holds]
  | renamed isRename =>
      obtain rfl := isRename
      cases keepsNames
  | created isCreate =>
      obtain rfl := isCreate
      cases keepsNames
  | deleted isDelete =>
      obtain rfl := isDelete
      cases keepsNames

end Restored

/-! ## What the name server stores -/

theorem registry_applyNotice
    {ns : NameServer}
    (registry : Registry ns)
    (now : Int)
    (info : StorageServerInfo)
    (msg : List CString) :
    Registry (applyNotice now info msg ns) := by
  unfold applyNotice
  split
  · exact registry.applyWriteComplete info msg
  · exact registry

/-- The entries after a notice: one may have other statistics. -/
theorem statistics_applyWriteComplete
    {ns : NameServer}
    (registry : Registry ns)
    (now : Int)
    (info : StorageServerInfo)
    {filename size words chars : CString}
    {rest : List CString}
    {file : FileMetadata}
    (member :
      file ∈ (applyWriteComplete now info
        (str "WRITE_COMPLETE" :: filename :: size :: words :: chars :: rest)
          ns).files) :
    ∃ old ∈ ns.files, old.filename = file.filename ∧
      file.statistics =
        if filename = file.filename then
          ⟨atoll size, atoll words, atoll chars⟩
        else old.statistics := by
  unfold applyWriteComplete at member
  simp only [registry.coherent.index_agrees] at member
  split at member
  · next index known found =>
      obtain ⟨position, scanned, heldAt⟩ := Option.bind_eq_some_iff.mp found
      obtain ⟨_, held, same⟩ := Option.map_eq_some_iff.mp heldAt
      cases same
      have stored :
          file ∈ ns.files.modify index
            (countedMetadata now (atoll size) (atoll words)
              (atoll chars)) := by
        have only :=
          onlyCacheChanged_fileCacheStore filename index
            (changeFile index
              (countedMetadata now (atoll size) (atoll words)
                (atoll chars)) ns)
        have cached :
            file ∈ (fileCacheStore filename index
              (changeFile index
                (countedMetadata now (atoll size) (atoll words)
                  (atoll chars)) ns)).files := by
          split at member
          · exact member
          · exact member
        rw [only.files] at cached
        exact cached
      obtain ⟨place, at_place⟩ := List.getElem?_of_mem stored
      rw [List.getElem?_modify, Option.map_eq_map,
        Option.map_eq_some_iff] at at_place
      obtain ⟨old, isOld, rfl⟩ := at_place
      refine ⟨old, List.mem_of_getElem? isOld, ?_⟩
      by_cases here : index = place
      · subst here
        obtain ⟨named, isNamed, isName⟩ := plainScan_some scanned
        obtain rfl : old = named := Option.some.inj (isOld.symm.trans isNamed)
        simp [countedMetadata, isName, FileMetadata.statistics]
      · have different : filename ≠ old.filename := by
          rintro rfl
          have alsoHere :=
            (plainScan_eq_some_iff registry.coherent.names_nodup).mpr
              ⟨old, isOld, rfl⟩
          exact here (Option.some.inj (scanned.symm.trans alsoHere))
        simp [here, different]
  · next missing =>
      refine ⟨file, member, rfl, ?_⟩
      have absent : filename ≠ file.filename := by
        rintro rfl
        obtain ⟨place, isHere⟩ := List.getElem?_of_mem member
        have scanned :=
          (plainScan_eq_some_iff registry.coherent.names_nodup).mpr
            ⟨file, isHere, rfl⟩
        simp [scanned, isHere] at missing
      rw [if_neg absent]

/-- Applying a message is what its statistics say. -/
theorem statistics_applyNotice
    {ns : NameServer}
    (registry : Registry ns)
    (now : Int)
    (info : StorageServerInfo)
    (msg : List CString)
    {file : FileMetadata}
    (member : file ∈ (applyNotice now info msg ns).files) :
    ∃ old ∈ ns.files, old.filename = file.filename ∧
      file.statistics =
        (noticedStatistics file.filename msg).getD old.statistics := by
  unfold applyNotice at member
  split at member
  · next isNotice =>
      match msg with
      | type :: filename :: size :: words :: chars :: rest =>
          obtain rfl : type = str "WRITE_COMPLETE" := Option.some.inj isNotice
          obtain ⟨old, isOld, name, statistics⟩ :=
            statistics_applyWriteComplete registry now info member
          refine ⟨old, isOld, name, statistics.trans ?_⟩
          by_cases same : filename = file.filename
          · simp [noticedStatistics, same]
          · simp [noticedStatistics, same]
      | [] | [_] | [_, _] | [_, _, _] | [_, _, _, _] =>
          exact ⟨file, member, rfl, rfl⟩
  · next other =>
      exact ⟨file, member, rfl, by
        rw [noticedStatistics_of_other other, Option.getD_none]⟩

/-! ## What every run keeps -/

/--
The statistics of every file will be right once the messages on their way have
been applied, and these are about records of their servers.
-/
structure StatisticsSound (state : StatisticsState) : Prop where
  registry : Registry state.ns
  placed : ∀ host ∈ state.hosts, RecordsPlaced host.server
  undisturbed : ∀ host ∈ state.hosts, host.server.disk.outcomes = []
  names_nodup :
    (state.hosts.flatMap fun host =>
      host.server.files.map FileRecord.filename).Nodup
  about :
    ∀ host ∈ state.hosts, ∀ msg ∈ host.unread, ∀ filename,
      noticedStatistics filename msg ≠ none →
        ∃ rec ∈ host.server.files, rec.filename = filename
  settles :
    ∀ host ∈ state.hosts, ∀ rec ∈ host.server.files,
      ∀ file ∈ state.ns.files, file.filename = rec.filename →
        ∀ bytes ∈ host.server.disk.bytesAt rec.filepath,
          FitsLongLong bytes.length →
            settledStatistics file.filename host.unread file.statistics =
              contentStatistics bytes

namespace StatisticsSound

variable {state : StatisticsState}

theorem of_start
    (start : StatisticsStart state) :
    StatisticsSound state where
  registry := start.registry
  placed := start.placed
  undisturbed := start.undisturbed
  names_nodup := start.names_nodup
  about := by
    intro host member msg isUnread
    rw [(start.settled host member).1] at isUnread
    cases isUnread
  settles := by
    intro host member rec present file stored same bytes holds fits
    rw [(start.settled host member).1]
    exact start.follow host member rec present file stored same bytes holds
      fits

/-- With every message read the statistics are right. -/
theorem follow
    (sound : StatisticsSound state)
    (settled : Settled state) :
    StatisticsFollow state := by
  intro host member rec present file stored same bytes holds fits
  have settles :=
    sound.settles host member rec present file stored same bytes holds fits
  rw [(settled host member).1] at settles
  exact settles

/-- No two servers have a record of one name. -/
theorem name_apart
    (sound : StatisticsSound state)
    {first second : Nat}
    (different : first ≠ second)
    {host other : StatisticsHost}
    (isHost : state.hosts[first]? = some host)
    (isOther : state.hosts[second]? = some other)
    {rec r : FileRecord}
    (present : rec ∈ host.server.files)
    (presentThere : r ∈ other.server.files) :
    rec.filename ≠ r.filename := by
  obtain ⟨firstBound, rfl⟩ := List.getElem?_eq_some_iff.mp isHost
  obtain ⟨secondBound, rfl⟩ := List.getElem?_eq_some_iff.mp isOther
  have pairwise :=
    List.pairwise_iff_getElem.mp (List.nodup_flatMap.mp sound.names_nodup).2
  intro same
  rcases Nat.lt_or_gt_of_ne different with less | greater
  · exact pairwise first second firstBound secondBound less
      (List.mem_map_of_mem present) (same ▸ List.mem_map_of_mem presentThere)
  · exact pairwise second first secondBound firstBound greater
      (List.mem_map_of_mem presentThere) (same ▸ List.mem_map_of_mem present)

theorem names_nodup_of_mem
    (sound : StatisticsSound state)
    {host : StatisticsHost}
    (member : host ∈ state.hosts) :
    (host.server.files.map FileRecord.filename).Nodup :=
  (List.nodup_flatMap.mp sound.names_nodup).1 host member

/-- One server and the name server change. -/
theorem set
    (sound : StatisticsSound state)
    {place : Nat}
    {host : StatisticsHost}
    (isHost : state.hosts[place]? = some host)
    (after : StatisticsHost)
    (names :
      after.server.files.map FileRecord.filename =
        host.server.files.map FileRecord.filename)
    (placed : RecordsPlaced after.server)
    (undisturbed : after.server.disk.outcomes = [])
    (about :
      ∀ msg ∈ after.unread, ∀ filename,
        noticedStatistics filename msg ≠ none →
          ∃ rec ∈ after.server.files, rec.filename = filename)
    {ns : NameServer}
    (registry : Registry ns)
    (settles :
      ∀ rec ∈ after.server.files, ∀ file ∈ ns.files,
        file.filename = rec.filename →
          ∀ bytes ∈ after.server.disk.bytesAt rec.filepath,
            FitsLongLong bytes.length →
              settledStatistics file.filename after.unread file.statistics =
                contentStatistics bytes)
    (others :
      ∀ other ∈ state.hosts, ∀ rec ∈ other.server.files,
        (∀ r ∈ host.server.files, r.filename ≠ rec.filename) →
          ∀ file ∈ ns.files, file.filename = rec.filename →
            ∃ old ∈ state.ns.files, old.filename = file.filename ∧
              file.statistics = old.statistics) :
    StatisticsSound ⟨ns, state.hosts.set place after⟩ := by
  have either :
      ∀ other ∈ state.hosts.set place after,
        other = after ∨
          ∃ there, there ≠ place ∧ state.hosts[there]? = some other := by
    intro other member
    obtain ⟨there, isThere⟩ := List.getElem?_of_mem member
    by_cases same : place = there
    · subst same
      rw [List.getElem?_set_self (List.getElem?_eq_some_iff.mp isHost).1]
        at isThere
      exact .inl (Option.some.inj isThere).symm
    · rw [List.getElem?_set_ne same] at isThere
      exact .inr ⟨there, Ne.symm same, isThere⟩
  refine ⟨registry, ?_, ?_, ?_, ?_, ?_⟩
  · intro other member
    rcases either other member with rfl | ⟨there, _, isThere⟩
    · exact placed
    · exact sound.placed other (List.mem_of_getElem? isThere)
  · intro other member
    rcases either other member with rfl | ⟨there, _, isThere⟩
    · exact undisturbed
    · exact sound.undisturbed other (List.mem_of_getElem? isThere)
  · have same :
        (state.hosts.set place after).map
            (fun host => host.server.files.map FileRecord.filename) =
          state.hosts.map
            (fun host => host.server.files.map FileRecord.filename) := by
      refine List.ext_getElem? fun there => ?_
      rw [List.getElem?_map, List.getElem?_map]
      by_cases here : place = there
      · subst here
        rw [List.getElem?_set_self (List.getElem?_eq_some_iff.mp isHost).1,
          isHost, Option.map_some, Option.map_some, names]
      · rw [List.getElem?_set_ne here]
    change ((state.hosts.set place after).flatMap _).Nodup
    rw [List.flatMap_def, same, ← List.flatMap_def]
    exact sound.names_nodup
  · intro other member
    rcases either other member with rfl | ⟨there, _, isThere⟩
    · exact about
    · exact sound.about other (List.mem_of_getElem? isThere)
  · intro other member
    rcases either other member with rfl | ⟨there, elsewhere, isThere⟩
    · exact settles
    · intro rec present file stored same bytes holds fits
      have otherMember := List.mem_of_getElem? isThere
      obtain ⟨old, isOld, name, statistics⟩ :=
        others other otherMember rec present
          (fun r here =>
            sound.name_apart (Ne.symm elsewhere) isHost isThere here present)
          file stored same
      rw [statistics, ← name]
      exact sound.settles other otherMember rec present old isOld
        (name.trans same) bytes holds fits

/-- The name server reads a message. -/
theorem reads
    (sound : StatisticsSound state)
    {place : Nat}
    {now : Int}
    (keeps : KeepsStatistics state (.reads place now)) :
    StatisticsSound (statisticsStep state (.reads place now)) := by
  unfold statisticsStep
  simp only
  split
  · exact sound
  next host isHost =>
  split
  · exact sound
  next msg rest unread =>
  have member := List.mem_of_getElem? isHost
  have about :
      ∀ later ∈ rest, ∀ filename, noticedStatistics filename later ≠ none →
        ∃ rec ∈ host.server.files, rec.filename = filename :=
    fun later isLater =>
      sound.about host member later (unread ▸ List.mem_cons_of_mem msg isLater)
  split
  · next awaiting =>
      refine sound.set isHost { host with unread := rest, awaiting := false }
        rfl (sound.placed host member) (sound.undisturbed host member) about
        sound.registry ?_
        fun _ _ _ _ _ file stored _ => ⟨file, stored, rfl, rfl⟩
      intro rec present file stored same bytes holds fits
      have needless := keeps host (by rw [isHost]; rfl) awaiting file stored
      rw [unread, List.tail_cons] at needless
      rw [needless, ← unread]
      exact sound.settles host member rec present file stored same bytes holds
        fits
  · refine sound.set isHost { host with unread := rest, awaiting := false }
      rfl (sound.placed host member) (sound.undisturbed host member) about
      (registry_applyNotice sound.registry now host.info msg) ?_ ?_
    · intro rec present file stored same bytes holds fits
      obtain ⟨old, isOld, name, statistics⟩ :=
        statistics_applyNotice sound.registry now host.info msg stored
      have settles :=
        sound.settles host member rec present old isOld (name.trans same)
          bytes holds fits
      rw [unread, name] at settles
      rw [statistics]
      exact settles
    · intro other _ rec present apart file stored same
      obtain ⟨old, isOld, name, statistics⟩ :=
        statistics_applyNotice sound.registry now host.info msg stored
      refine ⟨old, isOld, name, ?_⟩
      have silent : noticedStatistics file.filename msg = none := by
        by_contra noticed
        obtain ⟨r, here, isName⟩ :=
          sound.about host member msg (unread ▸ List.mem_cons_self)
            file.filename noticed
        exact apart r here (isName.trans same)
      rw [statistics, silent, Option.getD_none]

/-- A storage server handles a command. -/
theorem handles
    (sound : StatisticsSound state)
    {place : Nat}
    {now : Int}
    {command : ContentCommand}
    (keeps : KeepsStatistics state (.handles place now command)) :
    StatisticsSound (statisticsStep state (.handles place now command)) := by
  unfold statisticsStep
  simp only
  split
  · exact sound
  next idle =>
  cases isHost : state.hosts[place]? with
  | none =>
      have outside : state.hosts.length ≤ place :=
        List.getElem?_eq_none_iff.mp isHost
      rw [List.modify_eq_self outside]
      exact sound
  | some host =>
      have member := List.mem_of_getElem? isHost
      have noticed :=
        keeps host (by rw [isHost]; rfl) (Bool.not_eq_true _ ▸ idle)
      have placed := sound.placed host member
      have unsentPlaced : RecordsPlaced { host.server with sent := [] } :=
        ⟨placed.addresses_nodup, placed.addresses_lt, placed.wellPlaced⟩
      have content :=
        contentStep_ssStep unsentPlaced (sound.undisturbed host member)
          (sound.names_nodup_of_mem member) rfl command.2 noticed
      have modified :
          state.hosts.modify place (StatisticsHost.handles now command) =
            state.hosts.set place (host.handles now command) := by
        refine List.ext_getElem? fun there => ?_
        rw [List.getElem?_modify]
        by_cases here : place = there
        · subst here
          rw [List.getElem?_set_self (List.getElem?_eq_some_iff.mp isHost).1,
            isHost]
          simp
        · rw [List.getElem?_set_ne here]
          simp [here]
      rw [modified]
      refine sound.set isHost (host.handles now command) content.names_eq
        (unsentPlaced.ssStep _)
        ((stepEffect { host.server with sent := [] }
          ⟨now, command⟩).disk_agrees.undisturbed
            (sound.undisturbed host member)) ?_ sound.registry ?_
        fun _ _ _ _ _ file stored _ => ⟨file, stored, rfl, rfl⟩
      · intro msg isUnread filename brings
        have known :
            ∃ rec ∈ host.server.files, rec.filename = filename := by
          rcases List.mem_append.mp isUnread with old | new
          · exact sound.about host member msg old filename brings
          · exact content.about msg (mem_writeCompletes new brings) filename
              brings
        exact List.mem_map.mp (content.names_eq ▸ List.mem_map.mpr known)
      · intro rec present file stored same bytes holds fits
        change settledStatistics file.filename (host.unread ++ _) _ = _
        rw [settledStatistics_append, settledStatistics_nameServerMessages]
        rcases content.followed rec present bytes holds with
          ⟨writer, name, only⟩ | ⟨old, wasPresent, name, silent, counted⟩
        · rw [only, settledStatistics, List.foldl_cons, List.foldl_nil, same,
            ← name, noticedStatistics_writeComplete writer fits,
            Option.getD_some]
        · obtain ⟨former, held, equal⟩ := Option.map_eq_some_iff.mp counted
          have sameSize : (former.length : Int) = bytes.length :=
            congrArg Statistics.size equal
          rw [← same] at silent
          rw [settledStatistics_of_none silent, ← equal]
          exact sound.settles host member old wasPresent file stored
            (same.trans name.symm) former held (sameSize ▸ fits)

/-- One step keeps the invariant. -/
theorem step
    (sound : StatisticsSound state)
    {event : StatisticsEvent}
    (keeps : KeepsStatistics state event) :
    StatisticsSound (statisticsStep state event) := by
  cases event with
  | handles place now command => exact sound.handles keeps
  | reads place now => exact sound.reads keeps

end StatisticsSound

/--
As long as what `UNDO` and `REVERT` give back has the same statistics, no
command writes the content of another file and no reply takes the place of a
`WRITE_COMPLETE` that is still needed, the statistics are right whenever every
message has been read.
-/
theorem statisticsFollow_of_keepsStatistics
    {start : StatisticsState}
    (initially : StatisticsStart start)
    {events : List StatisticsEvent}
    (guarded : GuardedRun statisticsStep KeepsStatistics start events)
    (settled : Settled (runFrom statisticsStep start events)) :
    StatisticsFollow (runFrom statisticsStep start events) := by
  have preserved :
      ∀ state event, StatisticsSound state → KeepsStatistics state event →
        StatisticsSound (statisticsStep state event) :=
    fun _ _ sound keeps => sound.step keeps
  have sound :=
    guarded.invariant preserved (StatisticsSound.of_start initially)
  exact sound.follow settled

/-! ## A commit that is taken back -/

/-- The name server after `ada` has created `a`. -/
def noteRegistered : NameServer :=
  (runFrom (nsStep acceptingStorage) ⟨nsInit, ()⟩
    [.servers [someStorageServer],
      .command 1 (str "ada") (.create [str "CREATE", str "a"])]).ns

/-- The storage server, its reply to the creation read. -/
def noteStored : StorageServer :=
  { ssStep (newServer ⟨str "s", length_shortPath⟩)
      ⟨1, .createFile [str "CREATE_FILE", str "a", str "ada"]⟩ with
    sent := [] }

/-- One empty file, known to both. -/
def noteCreated : StatisticsState :=
  ⟨noteRegistered, [⟨someStorageServer, noteStored, [], false⟩]⟩

theorem statisticsStart_noteCreated :
    StatisticsStart noteCreated where
  registry := registry_reachable acceptingStorage () _
  placed := by
    intro host member
    obtain rfl := List.mem_singleton.mp member
    have fresh : RecordsPlaced (newServer ⟨str "s", by decide⟩) :=
      recordsPlaced_of_no_files rfl
    have placed :=
      fresh.ssStep ⟨1, .createFile [str "CREATE_FILE", str "a", str "ada"]⟩
    exact ⟨placed.addresses_nodup, placed.addresses_lt, placed.wellPlaced⟩
  undisturbed := by decide +kernel
  names_nodup := by decide +kernel
  settled := by decide +kernel
  follow := by decide +kernel

/-- `ada` writes two words, and the name server reads what it is sent. -/
def noteWritten : List StatisticsEvent :=
  [ .handles 0 2
      ⟨.writeLock 4 [str "REQ_WRITE_LOCK", str "ada", str "a", str "0"], rfl⟩,
    .handles 0 3
      ⟨.writeData 4 [str "WRITE_DATA", str "0", str "Two words."], rfl⟩,
    .handles 0 4 ⟨.etirw 4, rfl⟩,
    .reads 0 5 ]

theorem statisticsFollow_noteWritten :
    (runFrom statisticsStep noteCreated noteWritten).ns.files.map
        FileMetadata.statistics = [⟨10, 2, 9⟩] ∧
      StatisticsFollow (runFrom statisticsStep noteCreated noteWritten) := by
  have settled : Settled (runFrom statisticsStep noteCreated noteWritten) := by
    decide +kernel
  exact ⟨by decide +kernel,
    statisticsFollow_of_keepsStatistics statisticsStart_noteCreated
      (by decide +kernel) settled⟩

/-- The `UNDO` of the commit sends the name server nothing. -/
theorem not_statisticsFollow_noteUndone :
    ¬∀ start events, StatisticsStart start →
      Settled (runFrom statisticsStep start events) →
        StatisticsFollow (runFrom statisticsStep start events) := by
  intro always
  have follow :=
    always noteCreated
      (noteWritten ++
        [.handles 0 6 ⟨.undo 4 [str "REQ_UNDO", str "ada", str "a"], rfl⟩])
      statisticsStart_noteCreated (by decide +kernel)
  exact absurd follow (by decide +kernel)

end DistributedDocs
