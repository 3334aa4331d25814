import DistributedDocs.ClientCommands

namespace DistributedDocs

/-!
# What a client asks

Whatever a user types, the message a handler sends is one line of a few fields.
A delimiter in an argument makes more fields of it, but not another command.
-/

/-! ## Typed lines -/

/-- The words of its line that a command passes on. -/
def TypedCommand.words : TypedCommand → List CString
  | .list | .listRequests | .approveAccess _ | .rejectAccess _ => []
  | .view word | .create word | .delete word | .createFolder word
  | .viewFolder word | .info word | .exec word | .onStorage _ word => [word]
  | .remAccess first second | .requestAccess first second
  | .move first second | .copy first second => [first, second]
  | .addAccess permFlag filename username => [permFlag, filename, username]

/-- The words of a command are parts of its line. -/
def TypedCommand.TypedAs (input : CString) (command : TypedCommand) : Prop :=
  ∀ word ∈ command.words, word.Sublist input

/-- Whatever command a line is taken for is typed as it. -/
def TakenFrom
    (input : CString)
    (outcome : Except (List CString) TypedCommand) : Prop :=
  ∀ command, outcome = .ok command → command.TypedAs input

section Typing

variable {input : CString}

theorem scanWord_sublist
    {width : Nat}
    {word rest : CString}
    (scanned : scanWord width input = some (word, rest)) :
    word.Sublist input ∧ rest.Sublist input := by
  have unspaced := List.dropWhile_sublist isspace (l := input)
  simp only [scanWord] at scanned
  split at scanned
  · cases scanned
  · obtain ⟨rfl, rfl⟩ := Prod.mk.inj (Option.some.inj scanned)
    exact ⟨((List.take_sublist _ _).trans (List.takeWhile_sublist _)).trans
        unspaced,
      (List.drop_sublist _ _).trans unspaced⟩

theorem scanWords_sublist
    {widths : List Nat}
    {words : List CString}
    (scanned : scanWords widths input = some words) :
    ∀ word ∈ words, word.Sublist input := by
  induction widths generalizing input words with
  | nil =>
      cases scanned
      exact nofun
  | cons width others inductionHypothesis =>
      rw [scanWords] at scanned
      split at scanned
      · cases scanned
      · next first rest scannedFirst =>
        obtain ⟨later, scannedLater, rfl⟩ :=
          Option.map_eq_some_iff.mp scanned
        obtain ⟨isPart, restIsPart⟩ := scanWord_sublist scannedFirst
        rw [List.forall_mem_cons]
        exact ⟨isPart, fun word listed =>
          (inductionHypothesis scannedLater word listed).trans restIsPart⟩

namespace TakenFrom

theorem error (printed : List CString) :
    TakenFrom input (.error printed) :=
  fun _ same => nomatch same

theorem ok
    {command : TypedCommand}
    (typed : command.TypedAs input) :
    TakenFrom input (.ok command) := by
  rintro _ ⟨⟩
  exact typed

theorem ite
    {condition : Bool}
    {first second : Except (List CString) TypedCommand}
    (takenFirst : TakenFrom input first)
    (takenSecond : TakenFrom input second) :
    TakenFrom input (if condition then first else second) := by
  split
  · exact takenFirst
  · exact takenSecond

theorem withFilename
    (text : String)
    {command : CString → TypedCommand}
    (words : ∀ filename, (command filename).words = [filename]) :
    TakenFrom input (DistributedDocs.withFilename input text command) := by
  unfold DistributedDocs.withFilename
  split
  · next filename scanned =>
    refine .ok ?_
    rw [TypedCommand.TypedAs, words]
    exact scanWords_sublist scanned
  · exact .error _

theorem withWords
    (firstWidth secondWidth : Nat)
    (text : String)
    {command : CString → CString → TypedCommand}
    (words : ∀ first second,
      (command first second).words ⊆ [first, second]) :
    TakenFrom input
      (DistributedDocs.withWords input firstWidth secondWidth text
        command) := by
  unfold DistributedDocs.withWords
  split
  · next first second scanned =>
    exact .ok fun word listed =>
      scanWords_sublist scanned word (words first second listed)
  · exact .error _

theorem withRequestId
    (text : String)
    {command : Int → TypedCommand}
    (words : ∀ requestId, (command requestId).words = []) :
    TakenFrom input (DistributedDocs.withRequestId input text command) := by
  unfold DistributedDocs.withRequestId
  split
  · split
    · exact .error _
    · refine .ok ?_
      rw [TypedCommand.TypedAs, words]
      exact nofun
  · exact .error _

theorem withSentence :
    TakenFrom input (DistributedDocs.withSentence input) := by
  unfold DistributedDocs.withSentence
  split
  · next filename rest scanned =>
    split
    · split
      · exact .error _
      · refine .ok fun word listed => ?_
        rw [List.mem_singleton.mp listed]
        exact (scanWord_sublist scanned).1
    · exact .error _
  · exact .error _

theorem mono
    {part : CString}
    {outcome : Except (List CString) TypedCommand}
    (taken : TakenFrom part outcome)
    (isPart : part.Sublist input) :
    TakenFrom input outcome :=
  fun command same word listed => (taken command same word listed).trans isPart

end TakenFrom

theorem viewFlags_sublist : (viewFlags input).Sublist input :=
  ((trimString_sublist _).trans (List.dropWhile_sublist _)).trans
    ((List.drop_sublist _ _).trans (List.dropWhile_sublist _))

/-- The words of a command are parts of the line that was typed. -/
theorem takenFrom_clientProcessCommand (input : CString) :
    TakenFrom input (clientProcessCommand input) := by
  unfold clientProcessCommand
  split
  · exact .error _
  · next command arguments scanned =>
    have isPart := (scanWord_sublist scanned).2
    have words :
        ∀ first second : CString, [first, second] ⊆ [first, second] :=
      fun _ _ => List.Subset.refl _
    have name : ∀ first second : CString, [first] ⊆ [first, second] := by
      simp
    refine .ite (.ok ?_) (TakenFrom.mono ?_ isPart)
    · intro word listed
      rw [List.mem_singleton.mp listed]
      exact viewFlags_sublist
    refine .ite (.withFilename _ fun _ => rfl) ?_
    refine .ite (.withFilename _ fun _ => rfl) ?_
    refine .ite .withSentence ?_
    refine .ite (.withFilename _ fun _ => rfl) ?_
    refine .ite (.withFilename _ fun _ => rfl) ?_
    refine .ite (.withFilename _ fun _ => rfl) ?_
    refine .ite (.withWords _ _ _ words) ?_
    refine .ite (.withFilename _ fun _ => rfl) ?_
    refine .ite (.ok nofun) ?_
    refine .ite (.withWords _ _ _ words) ?_
    refine .ite (.ok nofun) ?_
    refine .ite ?_ ?_
    · split
      · next perm filename target scannedWords =>
        exact .ok (scanWords_sublist scannedWords)
      · exact .error _
    refine .ite (.withWords _ _ _ words) ?_
    refine .ite (.withRequestId _ fun _ => rfl) ?_
    refine .ite (.withRequestId _ fun _ => rfl) ?_
    refine .ite (.withFilename _ fun _ => rfl) ?_
    refine .ite (.withFilename _ fun _ => rfl) ?_
    refine .ite (.withWords _ _ _ words) ?_
    refine .ite (.withFilename _ fun _ => rfl) ?_
    refine .ite (.withWords _ _ _ name) ?_
    refine .ite (.withWords _ _ _ name) ?_
    refine .ite (.withWords _ _ _ name) ?_
    refine .ite (.withFilename _ fun _ => rfl) ?_
    exact .error _

end Typing

/-! ## Messages -/

/-- The type of the message a command sends. -/
def TypedCommand.type : TypedCommand → String
  | .view _ => "VIEW"
  | .list => "LIST_USERS"
  | .addAccess _ _ _ => "ADDACCESS"
  | .remAccess _ _ => "REMACCESS"
  | .requestAccess _ _ => "REQUESTACCESS"
  | .listRequests => "LISTREQUESTS"
  | .approveAccess _ => "APPROVEACCESS"
  | .rejectAccess _ => "REJECTACCESS"
  | .create _ => "CREATE"
  | .delete _ => "DELETE"
  | .createFolder _ => "CREATEFOLDER"
  | .move _ _ => "MOVE"
  | .viewFolder _ => "VIEWFOLDER"
  | .copy _ _ => "COPY"
  | .info _ => "INFO"
  | .exec _ => "EXEC"
  | .onStorage _ _ => "REQ_LOC"

/-- The fields behind the type are parts of words, or plain and short. -/
structure Sends (command : TypedCommand) (fields : List CString) : Prop where
  few : fields.length ≤ 3
  taken :
    ∀ field ∈ fields,
      (∃ word ∈ command.words, field.Sublist word) ∨
        PlainField field ∧ field.length < 16

section Messages

variable {command : TypedCommand}

theorem checkInput_bind_eq_ok
    {condition : Bool}
    {text : String}
    {next : Unit → Except (List CString) (List CString)}
    {msg : List CString}
    (checked : (checkInput condition text >>= next) = .ok msg) :
    condition = true ∧ next () = .ok msg := by
  unfold checkInput at checked
  split at checked
  · next holds => exact ⟨holds, checked⟩
  · cases checked

theorem sends_words
    {fields : List CString}
    (few : fields.length ≤ 3)
    (words : fields ⊆ command.words) :
    Sends command fields :=
  ⟨few, fun field listed =>
    .inl ⟨field, words listed, List.Sublist.refl field⟩⟩

theorem sends_number
    {requestId : Int} :
    Sends command [snprintf 16 (decimal requestId)] where
  few := by simp
  taken field listed := by
    rw [List.mem_singleton.mp listed]
    refine .inr ⟨(plainField_decimal requestId).sublist
      (List.take_sublist _ _), ?_⟩
    rw [snprintf, List.length_take]
    omega

theorem permissionToSend_sublist (permFlag : CString) :
    (permissionToSend permFlag).Sublist permFlag := by
  unfold permissionToSend
  split
  · split
    · exact List.sublist_cons_self _ _
    · exact List.Sublist.refl _
  · exact List.Sublist.refl _

/-- Letters of a permission are no delimiters. -/
theorem permLetter_plain
    {letters token : CString}
    (isToken : letters.mapM permLetter = some token) :
    PlainField token ∧ token.length = letters.length := by
  induction letters generalizing token with
  | nil =>
      cases isToken
      exact ⟨by decide, rfl⟩
  | cons c rest inductionHypothesis =>
      rw [List.mapM_cons] at isToken
      obtain ⟨letter, isLetter, isToken⟩ := Option.bind_eq_some_iff.mp isToken
      obtain ⟨later, isLater, same⟩ := Option.bind_eq_some_iff.mp isToken
      obtain rfl := Option.some.inj same
      obtain ⟨laterPlain, laterLength⟩ := inductionHypothesis isLater
      have letterPlain : PlainField [letter] := by
        unfold permLetter at isLetter
        split at isLetter
        · obtain rfl := Option.some.inj isLetter
          decide
        · split at isLetter
          · obtain rfl := Option.some.inj isLetter
            decide
          · cases isLetter
      exact ⟨letterPlain.append laterPlain, by simp [laterLength]⟩

/-- The fields a handler sends are in the words it was called with. -/
theorem sends_of_request
    {msg : List CString}
    (requested : command.request = .ok msg) :
    ∃ fields, msg = str command.type :: fields ∧ Sends command fields := by
  cases command with
  | view flags =>
      simp only [TypedCommand.request] at requested
      split at requested
      · cases requested
      · split at requested
        · obtain rfl := Except.ok.inj requested
          exact ⟨[], rfl, sends_words (by simp) (by simp)⟩
        · obtain rfl := Except.ok.inj requested
          exact ⟨[flags], rfl, sends_words (by simp)
            (by simp [TypedCommand.words])⟩
  | list | listRequests =>
      obtain rfl := Except.ok.inj requested
      exact ⟨[], rfl, sends_words (by simp) (by simp)⟩
  | addAccess permFlag filename username =>
      obtain rfl := Except.ok.inj requested
      refine ⟨[filename, username, permissionToSend permFlag], rfl, by simp,
        ?_⟩
      simp only [List.forall_mem_cons, List.not_mem_nil, false_implies,
        implies_true, and_true]
      exact ⟨.inl ⟨filename, by simp [TypedCommand.words], .refl _⟩,
        .inl ⟨username, by simp [TypedCommand.words], .refl _⟩,
        .inl ⟨permFlag, by simp [TypedCommand.words],
          permissionToSend_sublist permFlag⟩⟩
  | remAccess filename username =>
      obtain rfl := Except.ok.inj requested
      exact ⟨[filename, username], rfl,
        sends_words (by simp) (List.Subset.refl _)⟩
  | requestAccess filename permission =>
      obtain ⟨-, requested⟩ := checkInput_bind_eq_ok requested
      simp only at requested
      split at requested
      · cases requested
      · next token isToken =>
        obtain ⟨-, requested⟩ := checkInput_bind_eq_ok requested
        obtain rfl := Except.ok.inj requested
        obtain ⟨plain, length⟩ := permLetter_plain isToken
        refine ⟨[filename, token], rfl, by simp, ?_⟩
        simp only [List.forall_mem_cons, List.not_mem_nil, false_implies,
          implies_true, and_true]
        refine ⟨.inl ⟨filename, by simp [TypedCommand.words], .refl _⟩,
          .inr ⟨plain, ?_⟩⟩
        have short :=
          (List.dropWhile_sublist (fun c => decide (c = CChar.ofChar '-'))
            (l := safeStrcpy permission 16)).length_le
        have copied := length_safeStrcpy_lt permission (by decide : 0 < 16)
        omega
  | approveAccess requestId | rejectAccess requestId =>
      obtain ⟨-, requested⟩ := checkInput_bind_eq_ok requested
      obtain rfl := Except.ok.inj requested
      exact ⟨_, rfl, sends_number⟩
  | create word | delete word | createFolder word | viewFolder word
  | info word | exec word =>
      obtain ⟨-, requested⟩ := checkInput_bind_eq_ok requested
      obtain rfl := Except.ok.inj requested
      exact ⟨[word], rfl, sends_words (by simp) (List.Subset.refl _)⟩
  | move first second | copy first second =>
      obtain ⟨-, requested⟩ := checkInput_bind_eq_ok requested
      obtain rfl := Except.ok.inj requested
      exact ⟨[first, second], rfl, sends_words (by simp) (List.Subset.refl _)⟩
  | onStorage use filename =>
      obtain ⟨-, requested⟩ := checkInput_bind_eq_ok requested
      cases checked : use.check with
      | error printed =>
          rw [checked] at requested
          cases requested
      | ok _ =>
          rw [checked] at requested
          obtain rfl := Except.ok.inj requested
          refine ⟨[use.operation, filename], rfl, by simp, ?_⟩
          simp only [List.forall_mem_cons, List.not_mem_nil, false_implies,
            implies_true, and_true]
          refine ⟨.inr ?_,
            .inl ⟨filename, by simp [TypedCommand.words], .refl _⟩⟩
          cases use <;> (simp only [StorageUse.operation]; decide)

theorem type_short (command : TypedCommand) :
    PlainField (str command.type) ∧ (str command.type).length < 16 := by
  cases command <;> (simp only [TypedCommand.type]; decide)

/-- What is sent for a typed line arrives in one piece. -/
theorem Sends.arrives
    {input : CString}
    {fields : List CString}
    (sends : Sends command fields)
    (typed : command.TypedAs input)
    (oneLine : newline ∉ input)
    (short : input.length < clientBufferSize) :
    Arrives (str command.type :: fields) := by
  have typeFits := type_short command
  have fieldFits :
      ∀ field ∈ str command.type :: fields,
        newline ∉ field ∧ field.length < clientBufferSize := by
    rw [List.forall_mem_cons]
    refine ⟨⟨typeFits.1.2, typeFits.2.trans (by decide)⟩, ?_⟩
    intro field listed
    rcases sends.taken field listed with
      ⟨word, isWord, isPart⟩ | ⟨plain, fieldShort⟩
    · have inLine := isPart.trans (typed word isWord)
      exact ⟨fun member => oneLine (inLine.subset member),
        inLine.length_le.trans_lt short⟩
    · exact ⟨plain.2, fieldShort.trans (by decide)⟩
  refine ⟨fun member => ?_, ?_⟩
  · rcases mem_intercalate member with
      isDelimiter | ⟨field, listed, inField⟩
    · exact absurd isDelimiter (by decide)
    · exact (fieldFits field listed).1 inField
  · have joined :=
      length_intercalate_add_one protocolDelimiter
        (List.cons_ne_nil (str command.type) fields)
    have room :=
      roomFor_le fun field listed => (fieldFits field listed).2
    have few := sends.few
    rw [List.length_cons] at room
    have most :
        (fields.length + 1) * clientBufferSize ≤ 4 * clientBufferSize :=
      Nat.mul_le_mul_right _ (by omega)
    have buffers : 4 * clientBufferSize = 32768 := by decide
    rw [TooLong, maxMessageSize]
    omega

end Messages

/-! ## What the name server makes of them -/

/-- What `run_client_loop` takes a message for. -/
inductive NsRequest where
  | listUsers
  | lists (listing : NsListing)
  | command (command : NsCommand)
  | unknown
  deriving DecidableEq

/-- The comparisons of `run_client_loop`. -/
def requestOf (msg : List CString) : NsRequest :=
  let isCommand (type : String) : Bool := msg.head? = some (str type)
  if isCommand "LIST_USERS" then .listUsers
  else if isCommand "VIEW" then .lists (.view msg)
  else if isCommand "INFO" then .lists (.info msg)
  else if isCommand "EXEC" then .lists (.exec msg)
  else if isCommand "REQUESTACCESS" then .command (.requestAccess msg)
  else if isCommand "LISTREQUESTS" then .lists .listRequests
  else if isCommand "APPROVEACCESS" then .command (.approveAccess msg)
  else if isCommand "REJECTACCESS" then .command (.rejectAccess msg)
  else if isCommand "COPY" then .command (.copy msg)
  else if isCommand "CREATE" then .command (.create msg)
  else if isCommand "CREATEFOLDER" then .command (.createFolder msg)
  else if isCommand "VIEWFOLDER" then .lists (.viewFolder msg)
  else if isCommand "MOVE" then .command (.move msg)
  else if isCommand "DELETE" then .command (.delete msg)
  else if isCommand "REQ_LOC" then .command (.reqLoc msg)
  else if isCommand "ADDACCESS" then .command (.addAccess msg)
  else if isCommand "REMACCESS" then .command (.remAccess msg)
  else .unknown

/-- What the message of a command is to be taken for. -/
def TypedCommand.asked (msg : List CString) : TypedCommand → NsRequest
  | .view _ => .lists (.view msg)
  | .list => .listUsers
  | .addAccess _ _ _ => .command (.addAccess msg)
  | .remAccess _ _ => .command (.remAccess msg)
  | .requestAccess _ _ => .command (.requestAccess msg)
  | .listRequests => .lists .listRequests
  | .approveAccess _ => .command (.approveAccess msg)
  | .rejectAccess _ => .command (.rejectAccess msg)
  | .create _ => .command (.create msg)
  | .delete _ => .command (.delete msg)
  | .createFolder _ => .command (.createFolder msg)
  | .move _ _ => .command (.move msg)
  | .viewFolder _ => .lists (.viewFolder msg)
  | .copy _ _ => .command (.copy msg)
  | .info _ => .lists (.info msg)
  | .exec _ => .lists (.exec msg)
  | .onStorage _ _ => .command (.reqLoc msg)

/-- A message that has arrived from the handler of a command. -/
structure Asks (command : TypedCommand) (msg : List CString) : Prop where
  typed : msg.head? = some (str command.type)
  plain : ∀ field ∈ msg, PlainField field
  complete : ∀ filename permission,
    command = .requestAccess filename permission → 3 ≤ msg.length

section Asking

variable
  {command : TypedCommand}
  {msg : List CString}

theorem plain_arrivedFields
    (arrives : Arrives msg) :
    ∀ field ∈ arrivedFields msg, PlainField field := by
  intro field listed
  have isPart := List.mem_of_mem_take listed
  refine ⟨fun member => ?_, fun member => ?_⟩
  · have kept := (of_mem_splitOnP isPart member).2
    simp at kept
  · exact arrives.oneLine (of_mem_splitOnP isPart member).1

theorem head?_arrivedFields
    {type : CString}
    (plain : PlainField type)
    (fields : List CString) :
    (arrivedFields (type :: fields)).head? = some type := by
  cases fields with
  | nil =>
      obtain ⟨others, same⟩ := fieldsOf_eq_cons type
      rw [firstField_of_plain plain.1] at same
      simp [arrivedFields, same]
  | cons field others =>
      rw [arrivedFields, List.intercalate_cons_cons, List.append_assoc,
        List.singleton_append, fieldsOf_delimited plain.1]
      rfl

/-- What a handler sends arrives as what it asks. -/
theorem asks_of_request
    (requested : command.request = .ok msg)
    (arrives : Arrives msg) :
    Asks command (arrivedFields msg) where
  typed := by
    obtain ⟨fields, rfl, -⟩ := sends_of_request requested
    exact head?_arrivedFields (type_short command).1 fields
  plain := plain_arrivedFields arrives
  complete := by
    rintro filename permission rfl
    obtain ⟨valid, requested⟩ := checkInput_bind_eq_ok requested
    simp only at requested
    split at requested
    · cases requested
    · next token isToken =>
      obtain ⟨-, requested⟩ := checkInput_bind_eq_ok requested
      obtain rfl := Except.ok.inj requested
      have namePlain : protocolDelimiter ∉ filename := by
        intro member
        simp only [validateFilename, Bool.and_eq_true, List.all_eq_true]
          at valid
        exact absurd (valid.2 _ member) (by decide)
      have nameOneLine : newline ∉ filename := by
        intro member
        exact arrives.oneLine (by simp [member])
      have deliverable :
          Deliverable [str "REQUESTACCESS", filename, token] := by
        refine ⟨by simp, ?_, by simp [maxFields], arrives.short⟩
        simp only [List.forall_mem_cons, List.not_mem_nil, false_implies,
          implies_true, and_true]
        exact ⟨by decide, ⟨namePlain, nameOneLine⟩,
          (permLetter_plain isToken).1⟩
      rw [deliverable.arrivedFields_eq]
      exact Nat.le_refl 3

theorem requestOf_eq (asks : Asks command msg) :
    requestOf msg = command.asked msg := by
  have typed := asks.typed
  unfold requestOf
  cases command <;> (simp only [TypedCommand.type] at typed; rw [typed]; rfl)

end Asking

/-! ## Replies -/

section Replies

variable
  {World : Type}
  (backend : Backend World)
  (machine : Machine)

/-- What `run_client_loop` replies to a message. -/
def replyTo
    (clients : List ClientInfo)
    (now : Int)
    (username : CString)
    (state : NsState World) : NsRequest → NsReply
  | .listUsers => .ok (listUsers clients)
  | .lists listing =>
      eventReply backend machine state (.lists now username listing)
  | .command command =>
      eventReply backend machine state
        (.acts (.command now username command))
  | .unknown => .error ⟨errInvalidRequest, str "Unknown client command."⟩

/-- What a message changes at the name server and the storage servers. -/
def afterRequest
    (now : Int)
    (username : CString)
    (state : NsState World) : NsRequest → NsState World
  | .listUsers | .unknown => state
  | .lists listing =>
      eventStep backend machine state (.lists now username listing)
  | .command command =>
      eventStep backend machine state (.acts (.command now username command))

variable
  {backend : Backend World}
  {machine : Machine}
  {state : NsState World}
  {now : Int}
  {username : CString}

/-- What the outcome of a handler says of its reply. -/
theorem replyOf_outcome
    {α : Type}
    {before : NsState World → Prop}
    {stream : List (List CString) → Prop}
    {program : NsHandler World α}
    (messagesFrom : α → List (List CString))
    (yields :
      Yields before (fun value _ => stream (messagesFrom value)) Refusal.Plain
        program)
    (holds : before state) :
    ReplyOf stream ((repliedBy (program state)).map messagesFrom) := by
  have outcome := yields state holds
  cases ran : program state with
  | ok value final =>
      rw [ran] at outcome
      exact outcome
  | error refusal final =>
      rw [ran] at outcome
      exact outcome

variable
  (plainly : ∀ address fields world,
    PlainAnswer fields (backend address fields world).1)

include plainly

/-- The reply to a listing is the stream it promises. -/
theorem replyOf_listing
    (plainTimes : machine.PlainTimes)
    (orderly : Orderly state.ns)
    (listing : NsListing) :
    ReplyOf listing.Stream
      (eventReply backend machine state (.lists now username listing)) := by
  have replied :=
    replyOf_outcome id
      (yields_listing plainly plainTimes now username listing) orderly.fields
  rw [Except.map_id] at replied
  exact replied

/-- The reply to a command is one message. -/
theorem replyOf_command
    (machine : Machine)
    (orderly : Orderly state.ns)
    {command : NsCommand}
    (plainMsg : ∀ field ∈ command.message, PlainField field)
    (complete : command.Complete) :
    ReplyOf
      (fun messages => ∃ fields, messages = [fields] ∧ Deliverable fields)
      (eventReply backend machine state
        (.acts (.command now username command))) := by
  refine replyOf_outcome (fun reply => [reply])
    ((yields_command plainly now username plainMsg complete).mono
      (fun _ => id) fun reply _ deliverable => ?_) orderly
  exact ⟨reply, rfl, deliverable⟩

/-- Whatever a handler asks, it gets the reply it waits for. -/
theorem replyOf_asked
    (plainTimes : machine.PlainTimes)
    (orderly : Orderly state.ns)
    {clients : List ClientInfo}
    (valid : ∀ client ∈ clients, validateUsername client.username = true)
    {command : TypedCommand}
    {msg : List CString}
    (asks : Asks command msg) :
    ReplyOf command.Stream
      (replyTo backend machine clients now username state (requestOf msg)) := by
  have listed :
      ∀ listing : NsListing,
        ReplyOf listing.Stream
          (eventReply backend machine state (.lists now username listing)) :=
    replyOf_listing plainly plainTimes orderly
  rw [requestOf_eq asks]
  cases command with
  | view flags => exact listed (.view msg)
  | viewFolder path => exact listed (.viewFolder msg)
  | info filename => exact listed (.info msg)
  | exec filename => exact listed (.exec msg)
  | listRequests => exact listed .listRequests
  | list => exact rowStream_listUsers valid
  | requestAccess filename permission =>
      exact replyOf_command plainly machine orderly asks.plain
        (asks.complete filename permission rfl)
  | _ => exact replyOf_command plainly machine orderly asks.plain trivial

end Replies

end DistributedDocs
