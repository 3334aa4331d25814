import DistributedDocs.ClientRequests
import DistributedDocs.ServerLoads
import DistributedDocs.StorageAnswers

namespace DistributedDocs

/-!
# Clients and the name server

Each client has a connection of its own.  Bytes arrive in pieces, while other
clients are served, storage servers report, and sessions come and go.  A handler
sends one message and reads on until it takes its reply for complete.  It never
reads less or more than the name server has replied to that message.
-/

/-! ## Connections -/

/-- One direction of a connection. -/
structure Channel where
  arrived : CString
  underWay : CString
  deriving DecidableEq

namespace Channel

/-- The bytes that have been sent and not been read. -/
def unread (channel : Channel) : CString :=
  channel.arrived ++ channel.underWay

/-- `protocol_send_message` -/
def send (message : CString) (channel : Channel) : Channel :=
  { channel with underWay := channel.underWay ++ message }

/-- Some bytes arrive. -/
def carry (count : Nat) (channel : Channel) : Channel where
  arrived := channel.arrived ++ channel.underWay.take count
  underWay := channel.underWay.drop count

/-- The receiver has read all but this. -/
def keep (rest : CString) (channel : Channel) : Channel :=
  { channel with arrived := rest }

@[simp] theorem unread_send (message : CString) (channel : Channel) :
    (channel.send message).unread = channel.unread ++ message := by
  simp [unread, send]

@[simp] theorem unread_carry (count : Nat) (channel : Channel) :
    (channel.carry count).unread = channel.unread := by
  simp [unread, carry]

theorem arrived_of_unread
    {channel : Channel}
    (nothing : channel.unread = []) :
    channel.arrived = [] :=
  (List.append_eq_nil_iff.mp nothing).1

/-- Once everything has arrived it is all there is to read. -/
theorem arrived_carry (channel : Channel) :
    (channel.carry channel.underWay.length).arrived = channel.unread := by
  simp [carry, unread]

end Channel

/-- A client at its connection, and what both ends have said so far. -/
structure Dialogue where
  requests : Channel
  replies : Channel
  waiting : Option TypedCommand
  served : List (List CString × NsReply)
  shown : List (TypedCommand × HandlerResult)

namespace Dialogue

/-- Nothing has been said. -/
def fresh : Dialogue :=
  ⟨⟨[], []⟩, ⟨[], []⟩, none, [], []⟩

/-- `client_process_command`, up to where the handler waits for a reply. -/
def typeLine (input : CString) (dialogue : Dialogue) : Dialogue :=
  match dialogue.waiting, clientProcessCommand input with
  | none, .ok command =>
      match command.request with
      | .ok msg =>
          { dialogue with
            requests := dialogue.requests.send (protocolBuildMessage msg)
            waiting := some command }
      | .error _ => dialogue
  | _, _ => dialogue

/-- The handler that waits goes on with what has arrived. -/
def readReply (dialogue : Dialogue) : Dialogue :=
  match dialogue.waiting with
  | some command =>
      match command.read dialogue.replies.arrived with
      | some (result, rest) =>
          { dialogue with
            replies := dialogue.replies.keep rest
            waiting := none
            shown := dialogue.shown ++ [(command, result)] }
      | none => dialogue
  | none => dialogue

/-- A part of what the client has sent arrives. -/
def carryRequest (count : Nat) (dialogue : Dialogue) : Dialogue :=
  { dialogue with requests := dialogue.requests.carry count }

/-- A part of what the name server has sent arrives. -/
def carryReply (count : Nat) (dialogue : Dialogue) : Dialogue :=
  { dialogue with replies := dialogue.replies.carry count }

/-- The name server has read a message, and replies. -/
def answer
    (msg : List CString)
    (rest : CString)
    (reply : NsReply)
    (dialogue : Dialogue) : Dialogue :=
  { dialogue with
    requests := dialogue.requests.keep rest
    replies := dialogue.replies.send (sentBytes reply)
    served := dialogue.served ++ [(msg, reply)] }

end Dialogue

/-! ## The system -/

/-- The name server, the sessions, and a dialogue for each connection. -/
structure Dialogues (World : Type) where
  server : NsState World
  table : ClientTable
  dialogues : Nat → Dialogue

/-- What happens next; connections are told apart by their number. -/
inductive DialogueEvent (World : Type) where
  | session (event : ClientEvent)
  | outside (action : NsAction World)
  | typeLine (id : Nat) (input : CString)
  | carryRequest (id count : Nat)
  | serve (id : Nat) (now : Int)
  | carryReply (id count : Nat)
  | readReply (id : Nat)

/-- What comes from outside is a line, a time or a message. -/
def DialogueEvent.Allowed {World : Type} : DialogueEvent World → Prop
  | .outside action => wireRules.Allows action
  | .typeLine _ input => newline ∉ input ∧ input.length < clientBufferSize
  | .serve _ now => FitsLongLong now
  | .session _ | .carryRequest _ _ | .carryReply _ _ | .readReply _ => True

section System

variable
  {World : Type}
  (backend : Backend World)
  (machine : Machine)

/-- A change at one connection. -/
def Dialogues.onDialogue
    (id : Nat)
    (change : Dialogue → Dialogue)
    (state : Dialogues World) : Dialogues World :=
  { state with
    dialogues :=
      Function.update state.dialogues id (change (state.dialogues id)) }

/--
One round of `run_client_loop`.  It waits for a message, and ends the session
where `protocol_receive_message` returns NULL.
-/
def Dialogues.serve
    (id : Nat)
    (now : Int)
    (conn : ConnectionContext)
    (state : Dialogues World) : Dialogues World :=
  match clientReadResponse (state.dialogues id).requests.arrived with
  | none => state
  | some (none, _) =>
      { state with table := clientStep state.table (.leave id) }
  | some (some msg, rest) =>
      let reply :=
        replyTo backend machine state.table.clients now conn.username
          state.server (requestOf msg)
      { state.onDialogue id (Dialogue.answer msg rest reply) with
        server :=
          afterRequest backend machine now conn.username state.server
            (requestOf msg) }

/-- One event. -/
def dialogueStep (state : Dialogues World) :
    DialogueEvent World → Dialogues World
  | .session event => { state with table := clientStep state.table event }
  | .outside action =>
      { state with server := nsStep backend state.server action }
  | .typeLine id input => state.onDialogue id (Dialogue.typeLine input)
  | .carryRequest id count =>
      state.onDialogue id (Dialogue.carryRequest count)
  | .serve id now =>
      match state.table.connections[id]? with
      | some conn =>
          if conn.phase = .commands then
            state.serve backend machine id now conn
          else
            state
      | none => state
  | .carryReply id count =>
      state.onDialogue id (Dialogue.carryReply count)
  | .readReply id => state.onDialogue id Dialogue.readReply

/-- Nobody has connected, and nothing is known. -/
def Dialogues.start (world : World) : Dialogues World where
  server := ⟨nsInit, world⟩
  table := .empty
  dialogues := fun _ => .fresh

end System

/-! ## Who is logged in -/

/-- Sessions are held under valid names. -/
structure NamesValid (table : ClientTable) : Prop where
  clients : ∀ client ∈ table.clients, validateUsername client.username = true
  connections :
    ∀ conn ∈ table.connections, conn.phase = .commands →
      validateUsername conn.username = true

namespace NamesValid

variable {table : ClientTable}

theorem setConnection
    (valid : NamesValid table)
    (id : Nat)
    {conn : ConnectionContext}
    (done : conn.phase ≠ .commands) :
    NamesValid (table.setConnection id conn) where
  clients := valid.clients
  connections other listed isAt := by
    rcases List.mem_or_eq_of_mem_set listed with old | rfl
    · exact valid.connections other old isAt
    · exact absurd isAt done

/-- A change that keeps the name of an entry. -/
theorem modify
    {clients : List ClientInfo}
    (valid : ∀ client ∈ clients, validateUsername client.username = true)
    (index : Nat)
    {change : ClientInfo → ClientInfo}
    (sameName : ∀ client, (change client).username = client.username) :
    ∀ client ∈ clients.modify index change,
      validateUsername client.username = true := by
  intro client listed
  rcases mem_modify listed with old | ⟨former, isFormer, rfl⟩
  · exact valid client old
  · rw [sameName]
    exact valid former isFormer

theorem nsRegisterClient
    {clients after : List ClientInfo}
    (valid : ∀ client ∈ clients, validateUsername client.username = true)
    {username : CString}
    (userOk : validateUsername username = true)
    {sockfd : Int}
    (done :
      DistributedDocs.nsRegisterClient username sockfd clients =
        some after) :
    ∀ client ∈ after, validateUsername client.username = true := by
  unfold DistributedDocs.nsRegisterClient at done
  split at done
  · split at done
    · cases done
    · obtain rfl := Option.some.inj done
      exact modify valid _ fun _ => rfl
  · split at done
    · cases done
    · obtain rfl := Option.some.inj done
      intro client listed
      rcases List.mem_append.mp listed with old | new
      · exact valid client old
      · rw [List.mem_singleton.mp new,
          safeStrcpy_of_short (validateUsername_iff.mp userOk).2.1]
        exact userOk

theorem hello
    (valid : NamesValid table)
    (id : Nat)
    (conn : ConnectionContext)
    (msg : List CString) :
    NamesValid (table.hello id conn msg) := by
  have refused :
      NamesValid (table.setConnection id { conn with phase := .ending }) :=
    valid.setConnection id (by simp)
  unfold ClientTable.hello
  simp only
  split
  · next type username rest =>
    split
    · next userOk =>
      split
      · next clients done =>
        refine ⟨nsRegisterClient valid.clients userOk done, ?_⟩
        intro other listed isAt
        rcases List.mem_or_eq_of_mem_set listed with old | rfl
        · exact valid.connections other old isAt
        · rw [safeStrcpy_of_short (validateUsername_iff.mp userOk).2.1]
          exact userOk
      · exact refused
    · exact refused
  · exact refused

theorem cleanUp
    (valid : NamesValid table)
    (id : Nat)
    (conn : ConnectionContext) :
    NamesValid (table.cleanUp id conn) := by
  have closed :
      NamesValid (table.setConnection id { conn with phase := .closed }) :=
    valid.setConnection id (by simp)
  unfold ClientTable.cleanUp
  simp only
  split
  · refine ⟨?_, closed.connections⟩
    unfold disconnectClient
    split
    · exact modify valid.clients _ fun _ => rfl
    · exact valid.clients
  · exact closed

theorem clientStep
    (valid : NamesValid table)
    (event : ClientEvent) :
    NamesValid (DistributedDocs.clientStep table event) := by
  have inPhase :
      ∀ (id : Nat) (phase : ConnectionPhase)
          (next : ConnectionContext → ClientTable),
        (∀ conn, NamesValid (next conn)) →
          NamesValid (table.inPhase id phase next) := by
    intro id phase next goes
    unfold ClientTable.inPhase
    split
    · split
      · exact goes _
      · exact valid
    · exact valid
  cases event with
  | accept connFd =>
      refine ⟨valid.clients, fun conn listed isAt => ?_⟩
      rcases List.mem_append.mp listed with old | new
      · exact valid.connections conn old isAt
      · rw [List.mem_singleton.mp new] at isAt
        cases isAt
  | unreadable id =>
      exact inPhase id _ _ fun conn => valid.setConnection id (by simp)
  | helloClient id msg =>
      exact inPhase id _ _ fun conn => valid.hello id conn msg
  | otherHandshake id =>
      exact inPhase id _ _ fun conn => valid.setConnection id (by simp)
  | leave id =>
      exact inPhase id _ _ fun conn => valid.setConnection id (by simp)
  | cleanUp id =>
      exact inPhase id _ _ fun conn => valid.cleanUp id conn

end NamesValid

/-! ## One dialogue -/

/-- A handler has told its user what the name server replied to its message. -/
structure Reports
    (entry : TypedCommand × HandlerResult)
    (exchange : List CString × NsReply) : Prop where
  asked : ∃ msg, entry.1.request = .ok msg ∧ arrivedFields msg = exchange.1
  told : entry.2 = entry.1.shown exchange.2

/-- A handler has sent this message. -/
structure Asked
    (dialogue : Dialogue)
    (command : TypedCommand)
    (msg : List CString) : Prop where
  waiting : dialogue.waiting = some command
  requested : command.request = .ok msg
  arrives : Arrives msg

/--
Nothing is under way at a client that waits for nothing; otherwise it is the
request, or the reply to it.
-/
inductive InStep (dialogue : Dialogue) : Prop where
  | idle
      (waiting : dialogue.waiting = none)
      (noRequest : dialogue.requests.unread = [])
      (noReply : dialogue.replies.unread = [])
      (told : List.Forall₂ Reports dialogue.shown dialogue.served)
  | asking
      (command : TypedCommand)
      (msg : List CString)
      (asked : Asked dialogue command msg)
      (request : dialogue.requests.unread = protocolBuildMessage msg)
      (noReply : dialogue.replies.unread = [])
      (told : List.Forall₂ Reports dialogue.shown dialogue.served)
  | answered
      (command : TypedCommand)
      (msg : List CString)
      (asked : Asked dialogue command msg)
      (earlier : List (List CString × NsReply))
      (reply : NsReply)
      (served : dialogue.served = earlier ++ [(arrivedFields msg, reply)])
      (replied : ReplyOf command.Stream reply)
      (noRequest : dialogue.requests.unread = [])
      (replying : dialogue.replies.unread = sentBytes reply)
      (told : List.Forall₂ Reports dialogue.shown earlier)

/-- One more entry for one more exchange. -/
theorem forall₂_concat
    {α β : Type}
    {related : α → β → Prop}
    {firsts : List α}
    {seconds : List β}
    (all : List.Forall₂ related firsts seconds)
    {first : α}
    {second : β}
    (last : related first second) :
    List.Forall₂ related (firsts ++ [first]) (seconds ++ [second]) :=
  List.rel_append all (.cons last .nil)

/-- Nothing can be read before anything has arrived. -/
theorem clientReadResponse_nil : clientReadResponse [] = none := by
  rw [clientReadResponse, if_pos (by decide)]

theorem readResponses_nil
    {State : Type}
    (lost : List CString)
    (react : State → List CString → Reaction State)
    (state : State) :
    readResponses lost react state [] = none := by
  rw [readResponses_eq, clientReadResponse_nil]

theorem TypedCommand.read_nil (command : TypedCommand) :
    command.read [] = none := by
  cases command <;> simp [TypedCommand.read, readResponses_nil]

/-- A message is read once all of it has arrived. -/
theorem clientReadResponse_arrived
    {msg : List CString}
    (arrives : Arrives msg)
    {arrived underWay rest : CString}
    (carries : arrived ++ underWay = protocolBuildMessage msg)
    {read : Option (List CString)}
    (isRead : clientReadResponse arrived = some (read, rest)) :
    read = some (arrivedFields msg) ∧ rest = [] ∧ underWay = [] := by
  have whole := clientReadResponse_message arrives []
  rw [List.append_nil, ← carries, clientReadResponse_append isRead underWay]
    at whole
  obtain ⟨same, nothing⟩ := Prod.mk.inj (Option.some.inj whole)
  rw [List.append_eq_nil_iff] at nothing
  exact ⟨same, nothing⟩

namespace InStep

variable {dialogue : Dialogue}

theorem fresh : InStep .fresh :=
  .idle rfl rfl rfl .nil

/-- A line is typed. -/
theorem typeLine
    (inStep : InStep dialogue)
    {input : CString}
    (oneLine : newline ∉ input)
    (short : input.length < clientBufferSize) :
    InStep (dialogue.typeLine input) := by
  unfold Dialogue.typeLine
  split
  · next command waiting processed =>
    split
    · next msg requested =>
      obtain ⟨fields, rfl, sends⟩ := sends_of_request requested
      have arrives :=
        sends.arrives (takenFrom_clientProcessCommand input command processed)
          oneLine short
      cases inStep with
      | idle notWaiting noRequest noReply told =>
          exact .asking command _ ⟨rfl, requested, arrives⟩
            (by rw [Channel.unread_send, noRequest, List.nil_append]) noReply
            told
      | asking other otherMsg asked request noReply told =>
          rw [asked.waiting] at waiting
          cases waiting
      | answered other otherMsg asked earlier reply served replied noRequest
          replying told =>
          rw [asked.waiting] at waiting
          cases waiting
    · exact inStep
  · exact inStep

/-- Bytes arrive. -/
theorem carried
    (inStep : InStep dialogue)
    {requests replies : Channel}
    (sameRequests : requests.unread = dialogue.requests.unread)
    (sameReplies : replies.unread = dialogue.replies.unread) :
    InStep { dialogue with requests := requests, replies := replies } := by
  cases inStep with
  | idle waiting noRequest noReply told =>
      exact .idle waiting (sameRequests.trans noRequest)
        (sameReplies.trans noReply) told
  | asking command msg asked request noReply told =>
      exact .asking command msg ⟨asked.waiting, asked.requested, asked.arrives⟩
        (sameRequests.trans request) (sameReplies.trans noReply) told
  | answered command msg asked earlier reply served replied noRequest replying
      told =>
      exact .answered command msg
        ⟨asked.waiting, asked.requested, asked.arrives⟩ earlier reply served
        replied (sameRequests.trans noRequest) (sameReplies.trans replying)
        told

/-- The handler reads what has arrived. -/
theorem readReply (inStep : InStep dialogue) : InStep dialogue.readReply := by
  unfold Dialogue.readReply
  split
  · next command waiting =>
    split
    · next result rest read =>
      cases inStep with
      | idle notWaiting noRequest noReply told =>
          rw [notWaiting] at waiting
          cases waiting
      | asking other msg asked request noReply told =>
          rw [Channel.arrived_of_unread noReply, TypedCommand.read_nil] at read
          cases read
      | answered other msg asked earlier reply served replied noRequest
          replying told =>
          obtain rfl := Option.some.inj (asked.waiting.symm.trans waiting)
          obtain ⟨rfl, rfl, nothing⟩ :=
            TypedCommand.read_arrived replied replying read
          refine .idle rfl noRequest ?_ ?_
          · simp [Channel.keep, Channel.unread, nothing]
          · rw [served]
            exact forall₂_concat told ⟨⟨msg, asked.requested, rfl⟩, rfl⟩
    · exact inStep
  · exact inStep

/-- What the name server reads is the request, and nothing is left of it. -/
theorem of_request
    (inStep : InStep dialogue)
    {read : Option (List CString)}
    {rest : CString}
    (isRead :
      clientReadResponse dialogue.requests.arrived = some (read, rest)) :
    ∃ command msg,
      Asked dialogue command msg ∧ read = some (arrivedFields msg) ∧
        ∀ reply, ReplyOf command.Stream reply →
          InStep (dialogue.answer (arrivedFields msg) rest reply) := by
  have notEmpty :
      dialogue.requests.unread ≠ [] := by
    intro nothing
    rw [Channel.arrived_of_unread nothing, clientReadResponse_nil] at isRead
    cases isRead
  cases inStep with
  | idle waiting noRequest noReply told =>
      exact absurd noRequest notEmpty
  | asking command msg asked request noReply told =>
      obtain ⟨rfl, rfl, nothing⟩ :=
        clientReadResponse_arrived asked.arrives request isRead
      refine ⟨command, msg, asked, rfl, fun reply replied => ?_⟩
      refine .answered command msg
        ⟨asked.waiting, asked.requested, asked.arrives⟩ dialogue.served reply
        rfl replied ?_ ?_ told
      · simp [Dialogue.answer, Channel.keep, Channel.unread, nothing]
      · simp [Dialogue.answer, noReply]
  | answered command msg asked earlier reply served replied noRequest replying
      told =>
      exact absurd noRequest notEmpty

end InStep

/-! ## All dialogues -/

/-- The registry is in order, names are valid, and all dialogues in step. -/
structure Conversing {World : Type} (state : Dialogues World) : Prop where
  orderly : Orderly state.server.ns
  named : NamesValid state.table
  inStep : ∀ id, InStep (state.dialogues id)

theorem orderly_nsInit : Orderly nsInit where
  registry := registry_nsInit
  fields :=
    ⟨by simp [nsInit], by simp [nsInit], by simp [nsInit, connectionsOf]⟩
  fits := by simp [TableFits, nsInit]

section Steps

variable
  {World : Type}
  {backend : Backend World}
  {machine : Machine}
  {state : Dialogues World}

theorem conversing_start (world : World) :
    Conversing (Dialogues.start world) where
  orderly := orderly_nsInit
  named := ⟨nofun, nofun⟩
  inStep _ := .fresh

/-- What a message asks for leaves the registry in order. -/
theorem Orderly.request
    {server : NsState World}
    (orderly : Orderly server.ns)
    {now : Int}
    (timeOk : FitsLongLong now)
    {username : CString}
    (userOk : validateUsername username = true)
    {command : TypedCommand}
    {msg : List CString}
    (asks : Asks command msg) :
    Orderly
      (afterRequest backend machine now username server
        (requestOf msg)).ns := by
  have listed :
      ∀ listing : NsListing,
        Orderly
          (afterRequest backend machine now username server
            (.lists listing)).ns :=
    fun listing => orderly.listing backend machine timeOk userOk listing
  have done :
      ∀ command : NsCommand, command.message = msg →
        Orderly
          (afterRequest backend machine now username server
            (.command command)).ns := by
    rintro command rfl
    have isAllowed :
        wireRules.Allows
          (.command now username command : NsAction World) := by
      refine ⟨timeOk, userOk, fun field isField c member => ⟨?_, ?_⟩⟩
      · rintro rfl
        exact (asks.plain field isField).1 member
      · rintro rfl
        exact (asks.plain field isField).2 member
    exact orderly.action isAllowed
  rw [requestOf_eq asks]
  cases command with
  | view flags | viewFolder path | info filename | exec filename
  | listRequests => exact listed _
  | list => exact orderly
  | _ => exact done _ rfl

namespace Conversing

/-- One dialogue goes on. -/
theorem onDialogue
    (conversing : Conversing state)
    (id : Nat)
    {change : Dialogue → Dialogue}
    (inStep : InStep (change (state.dialogues id))) :
    Conversing (state.onDialogue id change) where
  orderly := conversing.orderly
  named := conversing.named
  inStep other := by
    simp only [Dialogues.onDialogue]
    by_cases here : other = id
    · subst here
      rwa [Function.update_self]
    · rw [Function.update_of_ne here]
      exact conversing.inStep other

/-- The reply to a message is the one its handler waits for. -/
theorem replied
    (conversing : Conversing state)
    (plainly : ∀ address fields world,
      PlainAnswer fields (backend address fields world).1)
    (plainTimes : machine.PlainTimes)
    (now : Int)
    (username : CString)
    {dialogue : Dialogue}
    {command : TypedCommand}
    {msg : List CString}
    (asked : Asked dialogue command msg) :
    ReplyOf command.Stream
      (replyTo backend machine state.table.clients now username state.server
        (requestOf (arrivedFields msg))) :=
  replyOf_asked plainly plainTimes conversing.orderly
    conversing.named.clients (asks_of_request asked.requested asked.arrives)

/-- The name server serves a client. -/
theorem serve
    (conversing : Conversing state)
    (plainly : ∀ address fields world,
      PlainAnswer fields (backend address fields world).1)
    (plainTimes : machine.PlainTimes)
    (id : Nat)
    {now : Int}
    (timeOk : FitsLongLong now)
    {conn : ConnectionContext}
    (userOk : validateUsername conn.username = true) :
    Conversing (state.serve backend machine id now conn) := by
  unfold Dialogues.serve
  split
  · exact conversing
  · exact ⟨conversing.orderly, conversing.named.clientStep (.leave id),
      conversing.inStep⟩
  · next msg rest isRead =>
    obtain ⟨command, sent, asked, same, next⟩ :=
      (conversing.inStep id).of_request isRead
    obtain rfl := Option.some.inj same
    have asks := asks_of_request asked.requested asked.arrives
    have told :=
      conversing.onDialogue id
        (next _
          (conversing.replied plainly plainTimes now conn.username asked))
    exact ⟨conversing.orderly.request timeOk userOk asks, told.named,
      told.inStep⟩

/-- Every event keeps all dialogues in step. -/
theorem dialogueStep
    (plainly : ∀ address fields world,
      PlainAnswer fields (backend address fields world).1)
    (plainTimes : machine.PlainTimes)
    (conversing : Conversing state)
    {event : DialogueEvent World}
    (allowed : event.Allowed) :
    Conversing (dialogueStep backend machine state event) := by
  cases event with
  | session event =>
      exact ⟨conversing.orderly, conversing.named.clientStep event,
        conversing.inStep⟩
  | outside action =>
      exact ⟨conversing.orderly.action allowed, conversing.named,
        conversing.inStep⟩
  | typeLine id input =>
      exact conversing.onDialogue id
        ((conversing.inStep id).typeLine allowed.1 allowed.2)
  | carryRequest id count =>
      exact conversing.onDialogue id
        ((conversing.inStep id).carried (Channel.unread_carry count _) rfl)
  | serve id now =>
      simp only [DistributedDocs.dialogueStep]
      split
      · next conn held =>
        split
        · next isAt =>
          exact conversing.serve plainly plainTimes id allowed
            (conversing.named.connections conn (List.mem_of_getElem? held)
              isAt)
        · exact conversing
      · exact conversing
  | carryReply id count =>
      exact conversing.onDialogue id
        ((conversing.inStep id).carried rfl (Channel.unread_carry count _))
  | readReply id =>
      exact conversing.onDialogue id (conversing.inStep id).readReply

end Conversing

end Steps

/-! ## Runs -/

/--
What every handler that is through has told is what the name server replied to
its message; a client that waits for nothing has nothing left to read.
-/
structure ReadsItsReplies (dialogue : Dialogue) : Prop where
  told :
    List.Forall₂ Reports dialogue.shown
      (dialogue.served.take dialogue.shown.length)
  ahead : dialogue.served.length ≤ dialogue.shown.length + 1
  settled :
    dialogue.waiting = none →
      dialogue.served.length = dialogue.shown.length ∧
        dialogue.requests.unread = [] ∧ dialogue.replies.unread = []

theorem InStep.readsItsReplies
    {dialogue : Dialogue}
    (inStep : InStep dialogue) :
    ReadsItsReplies dialogue := by
  cases inStep with
  | idle waiting noRequest noReply told =>
      have same := told.length_eq
      refine ⟨?_, by omega, fun _ => ⟨same.symm, noRequest, noReply⟩⟩
      rwa [same, List.take_length]
  | asking command msg asked request noReply told =>
      have same := told.length_eq
      refine ⟨?_, by omega, fun isIdle => ?_⟩
      · rwa [same, List.take_length]
      · rw [asked.waiting] at isIdle
        cases isIdle
  | answered command msg asked earlier reply served replied noRequest replying
      told =>
      have same := told.length_eq
      refine ⟨?_, ?_, fun isIdle => ?_⟩
      · rwa [served, same, List.take_left]
      · rw [served, same, List.length_append, List.length_singleton]
      · rw [asked.waiting] at isIdle
        cases isIdle

section Runs

variable
  {World : Type}
  {backend : Backend World}
  (plainly : ∀ address fields world,
    PlainAnswer fields (backend address fields world).1)
  {machine : Machine}
  (plainTimes : machine.PlainTimes)
  (world : World)
  {events : List (DialogueEvent World)}
  (allowed : ∀ event ∈ events, event.Allowed)

include plainly plainTimes allowed

/-- In every state of a run all dialogues are in step. -/
theorem conversing_reachable :
    Conversing
      (runFrom (dialogueStep backend machine) (Dialogues.start world)
        events) := by
  have preserved :
      ∀ (state : Dialogues World) (event : DialogueEvent World),
        Conversing state → event.Allowed →
          Conversing (dialogueStep backend machine state event) :=
    fun _ _ conversing isAllowed =>
      conversing.dialogueStep plainly plainTimes isAllowed
  exact GuardedRun.invariant preserved (conversing_start world)
    (.of_forall_mem allowed)

end Runs

/--
In every run, with any storage servers, each handler tells its user what the
name server has replied to its own message, however the bytes arrive and
whatever else is served.
-/
theorem every_reply_reaches_its_request
    {machine : Machine}
    (plainTimes : machine.PlainTimes)
    (fleet : Fleet)
    {events : List (DialogueEvent Fleet)}
    (allowed : ∀ event ∈ events, event.Allowed)
    (id : Nat) :
    ReadsItsReplies
      ((runFrom (dialogueStep fleetBackend machine) (Dialogues.start fleet)
        events).dialogues id) :=
  ((conversing_reachable plainAnswer_fleetBackend plainTimes fleet
    allowed).inStep id).readsItsReplies

/-- A user logs in and types a line. -/
def createTyped : List (DialogueEvent Fleet) :=
  [.outside (.servers [someStorageServer]), .session (.accept 5),
    .session (.helloClient 0 [str "HELLO_CLIENT", str "ada"]),
    .typeLine 0 (str "create plan")]

/-- The request arrives in two pieces, and so does the reply. -/
def createServed : List (DialogueEvent Fleet) :=
  createTyped ++
    [.carryRequest 0 6, .serve 0 1, .carryRequest 0 40, .serve 0 2,
      .carryReply 0 9, .readReply 0, .carryReply 0 90, .readReply 0,
      .typeLine 0 (str "VIEW -a")]

theorem allowed_createTyped : ∀ event ∈ createTyped, event.Allowed := by
  simp only [createTyped, List.forall_mem_cons, List.not_mem_nil,
    false_implies, implies_true, and_true]
  refine ⟨?_, trivial, trivial, by decide, by decide⟩
  intro ss listed
  rw [List.mem_singleton.mp listed]
  have plain : PlainField someStorageServer.clientIp := by decide
  refine ⟨fun c inAddress => ⟨?_, ?_⟩, by decide, by decide⟩
  · exact ne_of_mem_of_not_mem inAddress plain.1
  · exact ne_of_mem_of_not_mem inAddress plain.2

theorem allowed_createServed : ∀ event ∈ createServed, event.Allowed := by
  rw [createServed, List.forall_mem_append]
  refine ⟨allowed_createTyped, ?_⟩
  simp only [List.forall_mem_cons, List.not_mem_nil, false_implies,
    implies_true, and_true]
  exact ⟨trivial, ⟨by decide, by decide⟩, trivial, ⟨by decide, by decide⟩,
    trivial, trivial, trivial, trivial, by decide, by decide⟩

theorem plainTimes_idleMachine : idleMachine.PlainTimes :=
  fun _ => ⟨nofun, nofun⟩

theorem created_plan_is_told :
    ReadsItsReplies
      ((runFrom (dialogueStep fleetBackend idleMachine)
        (Dialogues.start emptyFleet.world) createServed).dialogues 0) :=
  every_reply_reaches_its_request plainTimes_idleMachine emptyFleet.world
    allowed_createServed 0

/-! ## No handler waits in vain -/

@[simp] theorem dialogues_onDialogue
    {World : Type}
    (id : Nat)
    (change : Dialogue → Dialogue)
    (state : Dialogues World) :
    (state.onDialogue id change).dialogues id =
      change (state.dialogues id) := by
  simp [Dialogues.onDialogue]

/-- The name server has replied to the handler that waits. -/
structure Replying
    (dialogue : Dialogue)
    (command : TypedCommand)
    (reply : NsReply) : Prop where
  waiting : dialogue.waiting = some command
  replied : ReplyOf command.Stream reply
  replying : dialogue.replies.unread = sentBytes reply
  last : dialogue.served.getLast?.map Prod.snd = some reply

/-- A handler is through once its whole reply has arrived. -/
theorem Replying.finished
    {dialogue : Dialogue}
    {command : TypedCommand}
    {reply : NsReply}
    (replying : Replying dialogue command reply) :
    (dialogue.carryReply dialogue.replies.underWay.length).readReply =
      { dialogue with
        replies := ⟨[], []⟩
        waiting := none
        shown := dialogue.shown ++ [(command, command.shown reply)] } := by
  have read := command.read_reply [] replying.replied
  rw [List.append_nil, ← replying.replying, ← Channel.arrived_carry] at read
  simp only [Dialogue.readReply, Dialogue.carryReply, replying.waiting, read]
  simp [Channel.keep, Channel.carry]

section Progress

variable
  {World : Type}
  {backend : Backend World}
  {machine : Machine}
  {state : Dialogues World}
  {id : Nat}
  {command : TypedCommand}

/-- Once a request has arrived whole it is served, unless it was before. -/
theorem Conversing.replying
    (conversing : Conversing state)
    (plainly : ∀ address fields world,
      PlainAnswer fields (backend address fields world).1)
    (plainTimes : machine.PlainTimes)
    (waiting : (state.dialogues id).waiting = some command)
    (now : Int)
    (conn : ConnectionContext) :
    ∃ reply,
      let arrived :=
        state.onDialogue id
          (Dialogue.carryRequest (state.dialogues id).requests.underWay.length)
      let served := (arrived.serve backend machine id now conn).dialogues id
      Replying served command reply ∧
        served.shown = (state.dialogues id).shown := by
  have whole :=
    Channel.arrived_carry (state.dialogues id).requests
  cases conversing.inStep id with
  | idle notWaiting noRequest noReply told =>
      rw [notWaiting] at waiting
      cases waiting
  | asking other msg asked request noReply told =>
      obtain rfl := Option.some.inj (asked.waiting.symm.trans waiting)
      have read := clientReadResponse_message asked.arrives []
      rw [List.append_nil, ← request, ← whole] at read
      refine ⟨replyTo backend machine state.table.clients now conn.username
        state.server (requestOf (arrivedFields msg)), ?_⟩
      simp only [Dialogues.serve, dialogues_onDialogue, Dialogue.carryRequest,
        read]
      refine ⟨⟨waiting, ?_, ?_, ?_⟩, rfl⟩
      · exact conversing.replied plainly plainTimes now conn.username asked
      · simp [Dialogue.answer, noReply, Dialogues.onDialogue]
      · simp [Dialogue.answer, Dialogues.onDialogue]
  | answered other msg asked earlier reply served replied noRequest replying
      told =>
      obtain rfl := Option.some.inj (asked.waiting.symm.trans waiting)
      rw [noRequest] at whole
      refine ⟨reply, ?_⟩
      simp only [Dialogues.serve, dialogues_onDialogue, Dialogue.carryRequest,
        whole, clientReadResponse_nil]
      exact ⟨⟨waiting, replied, replying, by simp [served]⟩, trivial⟩

end Progress

/--
In whatever state a handler waits, its request can still be served and its
reply arrive, and then it is through with it.
-/
theorem waiting_handler_finishes
    {machine : Machine}
    (plainTimes : machine.PlainTimes)
    (fleet : Fleet)
    {events : List (DialogueEvent Fleet)}
    (allowed : ∀ event ∈ events, event.Allowed)
    {state : Dialogues Fleet}
    (reached :
      runFrom (dialogueStep fleetBackend machine) (Dialogues.start fleet)
          events =
        state)
    {id : Nat}
    {conn : ConnectionContext}
    (held : state.table.connections[id]? = some conn)
    (loggedIn : conn.phase = .commands)
    {command : TypedCommand}
    (waiting : (state.dialogues id).waiting = some command)
    (now : Int) :
    ∃ first second reply,
      let final :=
        (runFrom (dialogueStep fleetBackend machine) state
          [.carryRequest id first, .serve id now, .carryReply id second,
            .readReply id]).dialogues id
      final.waiting = none ∧
        final.shown =
          (state.dialogues id).shown ++ [(command, command.shown reply)] ∧
        final.served.getLast?.map Prod.snd = some reply := by
  have conversing :=
    reached ▸
      conversing_reachable plainAnswer_fleetBackend plainTimes fleet allowed
  obtain ⟨reply, replying, sameShown⟩ :=
    conversing.replying plainAnswer_fleetBackend plainTimes waiting now conn
  let arrived :=
    state.onDialogue id
      (Dialogue.carryRequest (state.dialogues id).requests.underWay.length)
  let served := (arrived.serve fleetBackend machine id now conn).dialogues id
  have finished := replying.finished
  have heldLater : arrived.table.connections[id]? = some conn := held
  refine ⟨(state.dialogues id).requests.underWay.length,
    served.replies.underWay.length, reply, ?_⟩
  simp only [runFrom_cons, runFrom_nil, dialogueStep, arrived] at heldLater ⊢
  simp only [heldLater, loggedIn, ↓reduceIte, dialogues_onDialogue, served,
    arrived]
  rw [finished]
  exact ⟨rfl, by rw [sameShown], replying.last⟩

theorem create_typed_is_told :
    let state :=
      runFrom (dialogueStep fleetBackend idleMachine)
        (Dialogues.start emptyFleet.world) createTyped
    ∃ first second reply,
      let final :=
        (runFrom (dialogueStep fleetBackend idleMachine) state
          [.carryRequest 0 first, .serve 0 7, .carryReply 0 second,
            .readReply 0]).dialogues 0
      final.waiting = none ∧
        final.shown =
          (state.dialogues 0).shown ++
            [(.create (str "plan"),
              (TypedCommand.create (str "plan")).shown reply)] ∧
        final.served.getLast?.map Prod.snd = some reply :=
  waiting_handler_finishes plainTimes_idleMachine emptyFleet.world
    allowed_createTyped rfl
    (rfl :
      (runFrom (dialogueStep fleetBackend idleMachine)
          (Dialogues.start emptyFleet.world) createTyped).table.connections[0]? =
        some ⟨5, true, str "ada", .commands⟩)
    rfl (by decide) 7

end DistributedDocs
