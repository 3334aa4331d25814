import DistributedDocs.ServerConnection

namespace DistributedDocs

/-!
# Concurrent calls on one connection

At most one request is outstanding, and the slot for its reply belongs to the
call that sent it until that call has taken the reply.  Only a call that ends
its first wait while a delivered reply is still in the slot breaks this: the
reader clears `awaiting_response` on delivery, before the reply is taken.
-/

namespace Connection

/-- The calls whose reply has not been read, oldest first. -/
def outstanding (conn : Connection) : List Nat :=
  conn.stream.filterMap SsMessage.answered ++ conn.requests

/-- The call is the only one in the second wait. -/
def AwaitedBy (conn : Connection) (call : Nat) : Prop :=
  ∀ other : Nat, conn.calls[other]? = some .awaitingReply ↔ other = call

/-- The call has not ended its first wait. -/
def BeforeSending (conn : Connection) (call : Nat) : Prop :=
  conn.calls[call]? = some .entering ∨ conn.calls[call]? = some .queued

/-- Every call that succeeded returned a reply to its own request. -/
def OwnReplies (conn : Connection) : Prop :=
  ∀ (call : Nat) (message : SsMessage),
    conn.calls[call]? = some (.finished (.returned message)) →
      message.answered = some call

end Connection

/-- How far the exchange of one request and its reply is. -/
inductive Exchange (conn : Connection) : Prop where
  | idle
      (clear : conn.awaitingResponse = false)
      (unready : conn.responseReady = false)
      (empty : conn.responseRaw = none)
      (nobody : ∀ call : Nat, conn.calls[call]? ≠ some .awaitingReply)
      (settled : conn.outstanding = [])
  | asked
      (call : Nat)
      (awaiting : conn.awaitingResponse = true)
      (unready : conn.responseReady = false)
      (empty : conn.responseRaw = none)
      (awaited : conn.AwaitedBy call)
      (pending : conn.outstanding = [call])
  | delivered
      (call : Nat)
      (fields : List CString)
      (clear : conn.awaitingResponse = false)
      (ready : conn.responseReady = true)
      (fine : conn.responseStatus = 0)
      (held : conn.responseRaw = some (.reply call fields))
      (awaited : conn.AwaitedBy call)
      (settled : conn.outstanding = [])
  | broken
      (ended : conn.reader = .ended)
      (dead : conn.isAlive = false)
      (held :
        ∀ message, conn.responseRaw = some message →
          conn.responseReady = true ∧ conn.responseStatus = 0 ∧
            ∃ call, message.answered = some call ∧ conn.AwaitedBy call)

/-- The exchange is in order, and so was every one before it. -/
structure ExchangeSound (conn : Connection) : Prop where
  exchange : Exchange conn
  ownReplies : conn.OwnReplies
  nothingLost : conn.lost = []

theorem getElem?_set_call
    {calls : List CallPhase}
    {call : Nat}
    {phase : CallPhase}
    (held : calls[call]? = some phase)
    (next : CallPhase)
    (other : Nat) :
    (calls.set call next)[other]? =
      if other = call then some next else calls[other]? := by
  obtain ⟨inRange, _⟩ := List.getElem?_eq_some_iff.mp held
  by_cases same : other = call
  · subst other
    simp [inRange]
  · simp [List.getElem?_set_ne (Ne.symm same), same]

theorem Connection.OwnReplies.set
    {conn : Connection}
    (own : conn.OwnReplies)
    {call : Nat}
    {phase next : CallPhase}
    (held : conn.calls[call]? = some phase)
    (nextOwn :
      ∀ message, next = .finished (.returned message) →
        message.answered = some call) :
    (conn.setCall call next).OwnReplies := by
  intro other message finished
  simp only [Connection.setCall, getElem?_set_call held] at finished
  split at finished
  · next same =>
    rw [same]
    exact nextOwn message (Option.some.inj finished)
  · exact own other message finished

namespace ExchangeSound

/-- What a new exchange starts from holds of an opened connection. -/
theorem opened (reader : ReaderPhase) (ns : NameServer) :
    ExchangeSound (Connection.opened reader ns) where
  exchange :=
    .idle rfl rfl rfl (fun call => by simp [Connection.opened]) rfl
  ownReplies call message finished := by
    simp [Connection.opened] at finished
  nothingLost := rfl

variable {conn : Connection}

/-- A change that leaves the slot, the calls and the replies alone. -/
theorem of_same
    (sound : ExchangeSound conn)
    {after : Connection}
    (alive : after.isAlive = conn.isAlive)
    (awaiting : after.awaitingResponse = conn.awaitingResponse)
    (ready : after.responseReady = conn.responseReady)
    (status : after.responseStatus = conn.responseStatus)
    (raw : after.responseRaw = conn.responseRaw)
    (calls : after.calls = conn.calls)
    (outstanding : after.outstanding = conn.outstanding)
    (reader : conn.reader = .ended → after.reader = .ended)
    (lost : after.lost = conn.lost) :
    ExchangeSound after where
  exchange := by
    cases sound.exchange with
    | idle clear unready empty nobody settled =>
        exact .idle (awaiting.trans clear) (ready.trans unready)
          (raw.trans empty) (calls ▸ nobody) (outstanding.trans settled)
    | asked call isAwaiting unready empty awaited pending =>
        exact .asked call (awaiting.trans isAwaiting) (ready.trans unready)
          (raw.trans empty) (fun other => calls ▸ awaited other)
          (outstanding.trans pending)
    | delivered call fields clear isReady fine held awaited settled =>
        exact .delivered call fields (awaiting.trans clear)
          (ready.trans isReady) (status.trans fine) (raw.trans held)
          (fun other => calls ▸ awaited other) (outstanding.trans settled)
    | broken ended dead held =>
        refine .broken (reader ended) (alive.trans dead) ?_
        intro message isHeld
        obtain ⟨isReady, fine, call, answered, awaited⟩ :=
          held message (raw ▸ isHeld)
        exact ⟨ready.trans isReady, status.trans fine, call, answered,
          fun other => calls ▸ awaited other⟩
  ownReplies call message finished :=
    sound.ownReplies call message (calls ▸ finished)
  nothingLost := lost.trans sound.nothingLost

/-- A change of calls outside the second wait. -/
theorem of_calls
    (sound : ExchangeSound conn)
    {calls : List CallPhase}
    (waits :
      ∀ call : Nat, calls[call]? = some .awaitingReply ↔
        conn.calls[call]? = some .awaitingReply)
    (returns :
      ∀ (call : Nat) (message : SsMessage),
        calls[call]? = some (.finished (.returned message)) →
          conn.calls[call]? = some (.finished (.returned message))) :
    ExchangeSound { conn with calls := calls } where
  exchange := by
    cases sound.exchange with
    | idle clear unready empty nobody settled =>
        exact .idle clear unready empty
          (fun call waiting => nobody call ((waits call).mp waiting)) settled
    | asked call awaiting unready empty awaited pending =>
        exact .asked call awaiting unready empty
          (fun other => (waits other).trans (awaited other)) pending
    | delivered call fields clear ready fine held awaited settled =>
        exact .delivered call fields clear ready fine held
          (fun other => (waits other).trans (awaited other)) settled
    | broken ended dead held =>
        refine .broken ended dead fun message isHeld => ?_
        obtain ⟨ready, fine, call, answered, awaited⟩ := held message isHeld
        exact ⟨ready, fine, call, answered,
          fun other => (waits other).trans (awaited other)⟩
  ownReplies call message finished :=
    sound.ownReplies call message (returns call message finished)
  nothingLost := sound.nothingLost

theorem call (sound : ExchangeSound conn) : ExchangeSound conn.call := by
  unfold Connection.call
  refine sound.of_calls ?_ ?_ <;> intro call
  · rw [List.getElem?_append]
    split
    · rfl
    · next past =>
      rw [List.getElem?_eq_none (Nat.not_lt.mp past)]
      cases at_ : call - conn.calls.length <;> split <;> simp
  · intro message finished
    rw [List.getElem?_append] at finished
    split at finished
    · exact finished
    · cases at_ : call - conn.calls.length <;> rw [at_] at finished <;>
        split at finished <;> simp at finished

theorem queued
    (sound : ExchangeSound conn)
    {call : Nat}
    (before : conn.BeforeSending call) :
    ExchangeSound (conn.setCall call .queued) := by
  obtain ⟨phase, held, notAwaiting⟩ :
      ∃ phase, conn.calls[call]? = some phase ∧ phase ≠ .awaitingReply := by
    rcases before with entering | queued
    · exact ⟨_, entering, by decide⟩
    · exact ⟨_, queued, by decide⟩
  refine sound.of_calls (fun other => ?_) (fun other message finished => ?_)
  · rw [getElem?_set_call held]
    split
    · next same =>
      rw [same, held]
      simp [notAwaiting]
    · rfl
  · rw [getElem?_set_call held] at finished
    split at finished
    · simp at finished
    · exact finished

/-- Once a call is over, nobody is in the second wait. -/
theorem nobody_after
    {call : Nat}
    (awaited : conn.AwaitedBy call)
    (result : CallResult)
    (other : Nat) :
    (conn.calls.set call (.finished result))[other]? ≠
      some .awaitingReply := by
  rw [getElem?_set_call ((awaited call).mpr rfl)]
  split
  · simp
  · next different =>
    exact fun waiting => different ((awaited other).mp waiting)

/-- A call that could not send leaves the exchange as it was. -/
theorem unsent
    (sound : ExchangeSound conn)
    {call : Nat}
    (before : conn.BeforeSending call)
    (clear : conn.awaitingResponse = false)
    (empty : conn.responseRaw = none)
    (code : Int) :
    ExchangeSound
      (Connection.setCall call (.finished (.failed code))
        { conn.freeResponse with
          responseReady := false
          responseStatus := 0 }) := by
  obtain ⟨phase, held⟩ : ∃ phase, conn.calls[call]? = some phase := by
    rcases before with entering | queued
    · exact ⟨_, entering⟩
    · exact ⟨_, queued⟩
  have keepsNobody
      (nobody : ∀ call : Nat, conn.calls[call]? ≠ some .awaitingReply)
      (other : Nat) :
      (conn.calls.set call (.finished (.failed code)))[other]? ≠
        some .awaitingReply := by
    rw [getElem?_set_call held]
    split
    · simp
    · exact nobody other
  constructor
  · cases sound.exchange with
    | idle _ _ _ nobody settled =>
        exact .idle clear rfl rfl (keepsNobody nobody) settled
    | asked _ awaiting =>
        rw [clear] at awaiting
        cases awaiting
    | delivered _ _ _ _ _ full =>
        rw [empty] at full
        cases full
    | broken ended dead _ =>
        refine .broken ended dead fun message isHeld => ?_
        simp [Connection.setCall, Connection.freeResponse] at isHeld
  · exact sound.ownReplies.set held (by simp)
  · simp [Connection.setCall, Connection.freeResponse, empty,
      sound.nothingLost]

theorem sendRequest
    (sound : ExchangeSound conn)
    {call : Nat}
    (before : conn.BeforeSending call)
    (clear : conn.awaitingResponse = false)
    (empty : conn.responseRaw = none)
    (sending : Sending) :
    ExchangeSound (conn.sendRequest call sending) := by
  unfold Connection.sendRequest
  cases sending with
  | unbuildable =>
      exact sound.unsent before clear empty _
  | unsendable =>
      exact sound.unsent before clear empty _
  | sent =>
      simp only
      split
      · next alive =>
        obtain ⟨phase, held⟩ : ∃ phase, conn.calls[call]? = some phase := by
          rcases before with entering | queued
          · exact ⟨_, entering⟩
          · exact ⟨_, queued⟩
        constructor
        · cases sound.exchange with
          | idle _ _ _ nobody settled =>
              refine .asked call rfl rfl rfl (fun other => ?_) ?_
              · simp only [Connection.setCall, Connection.freeResponse,
                  getElem?_set_call held]
                by_cases same : other = call
                · simp [same]
                · simp [same, nobody other]
              · simp only [Connection.outstanding, Connection.setCall,
                  Connection.freeResponse, List.append_eq_nil_iff]
                  at settled ⊢
                rw [settled.1, settled.2]
                rfl
          | asked _ awaiting =>
              rw [clear] at awaiting
              cases awaiting
          | delivered _ _ _ _ _ full =>
              rw [empty] at full
              cases full
          | broken _ dead _ =>
              rw [dead] at alive
              cases alive
        · exact sound.ownReplies.set held (by simp)
        · simp [Connection.setCall, Connection.freeResponse, empty,
            sound.nothingLost]
      · exact sound.unsent before clear empty _

theorem takeResponse
    (sound : ExchangeSound conn)
    {call : Nat}
    (waiting : conn.calls[call]? = some .awaitingReply) :
    ExchangeSound (conn.takeResponse call) := by
  unfold Connection.takeResponse
  cases sound.exchange with
  | idle _ _ _ nobody _ =>
      exact absurd waiting (nobody call)
  | asked _ _ unready _ _ _ =>
      simpa [unready] using sound
  | delivered asker fields clear ready fine held awaited settled =>
      obtain rfl : call = asker := (awaited call).mp waiting
      simp only [ready, Bool.not_true, Bool.false_eq_true, ↓reduceIte, fine,
        ne_eq, not_true_eq_false, held]
      exact
        { exchange :=
            .idle rfl rfl rfl (nobody_after awaited _) settled
          ownReplies := sound.ownReplies.set waiting (by
            rintro message ⟨⟩
            rfl)
          nothingLost := sound.nothingLost }
  | broken ended dead held =>
      split
      · exact sound
      · next ready =>
        split
        · next failed =>
          have empty : conn.responseRaw = none :=
            Option.eq_none_iff_forall_ne_some.mpr fun message isHeld =>
              failed (held message isHeld).2.1
          exact
            { exchange := .broken ended dead (by rintro _ ⟨⟩)
              ownReplies := sound.ownReplies.set waiting (by simp)
              nothingLost := by
                simp [Connection.setCall, Connection.freeResponse, empty,
                  sound.nothingLost] }
        · refine
            { exchange := .broken ended dead (by rintro _ ⟨⟩)
              ownReplies := sound.ownReplies.set waiting ?_
              nothingLost := sound.nothingLost }
          intro message taken
          split at taken
          · simp at taken
          · next response isHeld =>
            obtain ⟨_, _, asker, answered, awaited⟩ := held response isHeld
            cases taken
            rw [answered, (awaited call).mp waiting]

theorem resume
    (sound : ExchangeSound conn)
    {call : Nat}
    (spares :
      conn.BeforeSending call → conn.awaitingResponse = false →
        conn.responseRaw = none)
    (sending : Sending) :
    ExchangeSound (conn.resume call sending) := by
  have sends (before : conn.BeforeSending call) :
      ExchangeSound
        (if conn.awaitingResponse then conn.setCall call .queued
        else conn.sendRequest call sending) := by
    split
    · exact sound.queued before
    · next clear =>
      have clear := Bool.eq_false_of_not_eq_true clear
      exact sound.sendRequest before clear (spares before clear) sending
  unfold Connection.resume
  split
  · next entering =>
    exact sends (.inl entering)
  · next queued =>
    exact sends (.inr queued)
  · next waiting =>
    exact sound.takeResponse waiting
  · exact sound

theorem answer
    (sound : ExchangeSound conn)
    (fields : List CString) :
    ExchangeSound (conn.answer fields) := by
  unfold Connection.answer
  split
  · exact sound
  · next call rest asked =>
    refine sound.of_same rfl rfl rfl rfl rfl rfl ?_ id rfl
    simp [Connection.outstanding, SsMessage.answered, asked]

theorem notify
    (sound : ExchangeSound conn)
    {message : SsMessage}
    (notice : message.answered = none) :
    ExchangeSound (conn.notify message) := by
  refine sound.of_same rfl rfl rfl rfl rfl rfl ?_ id rfl
  simp [Connection.outstanding, Connection.notify, notice]

theorem fail (sound : ExchangeSound conn) : ExchangeSound conn.fail := by
  unfold Connection.fail
  simp only
  split
  · next waited =>
    have empty : conn.responseRaw = none := by
      cases sound.exchange with
      | idle _ _ empty _ _ => exact empty
      | asked _ _ _ empty _ _ => exact empty
      | delivered _ _ _ ready _ _ _ _ => simp [ready] at waited
      | broken _ _ held =>
          refine Option.eq_none_iff_forall_ne_some.mpr fun message isHeld => ?_
          simp [(held message isHeld).1] at waited
    exact
      { exchange := .broken rfl rfl (by rintro _ ⟨⟩)
        ownReplies := sound.ownReplies
        nothingLost := by
          simp [Connection.freeResponse, empty, sound.nothingLost] }
  · next settled =>
    refine
      { exchange := .broken rfl rfl fun message isHeld => ?_
        ownReplies := sound.ownReplies
        nothingLost := sound.nothingLost }
    cases sound.exchange with
    | idle _ _ empty _ _ =>
        rw [show conn.responseRaw = some message from isHeld] at empty
        cases empty
    | asked _ _ _ empty _ _ =>
        rw [show conn.responseRaw = some message from isHeld] at empty
        cases empty
    | delivered call fields _ ready fine held awaited _ =>
        rw [show conn.responseRaw = some message from isHeld] at held
        cases held
        exact ⟨ready, fine, call, rfl, awaited⟩
    | broken _ _ held =>
        exact held message isHeld

/-- A reply can only be the one the waiting call has asked for. -/
theorem dispatch
    (sound : ExchangeSound conn)
    (alive : conn.reader ≠ .ended)
    {call : Nat}
    {fields : List CString}
    {rest : List SsMessage}
    (next : conn.stream = .reply call fields :: rest)
    (seen : List (Int × SsMessage)) :
    (conn.awaitingResponse && !conn.responseReady) = true ∧
      ExchangeSound
        (Connection.dispatch (.reply call fields)
          { conn with stream := rest, seen := seen }) := by
  have asks : conn.outstanding ≠ [] := by
    simp [Connection.outstanding, next, SsMessage.answered]
  cases sound.exchange with
  | idle _ _ _ _ settled =>
      exact absurd settled asks
  | asked asker awaiting unready empty awaited pending =>
      refine ⟨by simp [awaiting, unready], ?_⟩
      obtain ⟨rfl, settled⟩ :
          call = asker ∧
            rest.filterMap SsMessage.answered ++ conn.requests = [] := by
        simpa [Connection.outstanding, next, SsMessage.answered] using pending
      exact
        { exchange :=
            .delivered call fields rfl rfl rfl rfl awaited settled
          ownReplies := sound.ownReplies
          nothingLost := by
            simp [Connection.dispatch, Connection.freeResponse, empty,
              sound.nothingLost] }
  | delivered _ _ _ _ _ _ _ settled =>
      exact absurd settled asks
  | broken ended _ _ =>
      exact absurd ended alive

theorem read
    (sound : ExchangeSound conn)
    (ss : StorageServerInfo)
    (now : Int)
    (noticed :
      ∀ message rest,
        conn.reader ≠ .ended → conn.stream = message :: rest →
          message.answered = none → ExchangeSound (conn.read ss now)) :
    ExchangeSound (conn.read ss now) := by
  by_cases ended : conn.reader = .ended
  · rw [Connection.read_ended ss now ended]
    exact sound
  · cases stream : conn.stream with
    | nil =>
        rw [Connection.read_nil ss now stream]
        exact sound
    | cons message rest =>
        cases message with
        | reply call fields =>
            obtain ⟨awaiting, delivered⟩ :=
              sound.dispatch ended stream
                (conn.seen ++ [(now, .reply call fields)])
            rw [Connection.read_cons ss now ended stream]
            simp only [awaiting, ↓reduceIte]
            exact delivered
        | hasFile fields =>
            exact noticed _ _ ended stream rfl
        | filesDone =>
            exact noticed _ _ ended stream rfl
        | writeComplete fields =>
            exact noticed _ _ ended stream rfl

end ExchangeSound

/-! ## Runs without notices -/

/--
No call ends its first wait while the reply to another call is still in the
slot.
-/
def Connection.SparesReply (conn : Connection) : ConnectionEvent → Prop
  | .resume call _ =>
      conn.BeforeSending call → conn.awaitingResponse = false →
        conn.responseRaw = none
  | _ => True

instance (conn : Connection) (call : Nat) :
    Decidable (conn.BeforeSending call) :=
  inferInstanceAs (Decidable (_ ∨ _))

instance (conn : Connection) :
    ∀ event, Decidable (conn.SparesReply event)
  | .resume call _ =>
      inferInstanceAs
        (Decidable
          (conn.BeforeSending call → conn.awaitingResponse = false →
            conn.responseRaw = none))
  | .call | .answer _ | .hasFile _ | .filesDone | .writeComplete _ _ _ _
  | .read _ | .fail =>
      inferInstanceAs (Decidable True)

/-- Everything the storage server has sent answers a request. -/
def Connection.OnlyAnswers (conn : Connection) : Prop :=
  ∀ message ∈ conn.stream, message.answered ≠ none

/-- A call does not touch the reader's side. -/
theorem resume_frame
    (call : Nat)
    (sending : Sending)
    (conn : Connection) :
    let after := conn.resume call sending
    after.stream = conn.stream ∧ after.filesSent = conn.filesSent ∧
      after.reader = conn.reader ∧ after.ns = conn.ns ∧
      after.seen = conn.seen := by
  unfold Connection.resume Connection.sendRequest Connection.takeResponse
  repeat' split
  all_goals exact ⟨rfl, rfl, rfl, rfl, rfl⟩

theorem Connection.OnlyAnswers.read
    {conn : Connection}
    (only : conn.OnlyAnswers)
    (ss : StorageServerInfo)
    (now : Int) :
    (conn.read ss now).OnlyAnswers := by
  by_cases ended : conn.reader = .ended
  · rw [Connection.read_ended ss now ended]
    exact only
  · cases stream : conn.stream with
    | nil =>
        rw [Connection.read_nil ss now stream]
        exact only
    | cons first rest =>
        have onlyRest : ∀ message ∈ rest, message.answered ≠ none :=
          fun message member => only message (stream ▸ .tail _ member)
        rw [Connection.read_cons ss now ended stream]
        simp only
        split
        · exact onlyRest
        · obtain ⟨_, _, _, _, handled⟩ :=
            Connection.handle_frame ss now first
              { conn with
                stream := rest
                seen := conn.seen ++ [(now, first)] }
          rw [handled]
          exact onlyRest

theorem Connection.OnlyAnswers.step
    {conn : Connection}
    (only : conn.OnlyAnswers)
    (ss : StorageServerInfo)
    {event : ConnectionEvent}
    (answers : event.isNotice = false) :
    (connectionStep ss conn event).OnlyAnswers := by
  cases event with
  | call =>
      exact only
  | resume call sending =>
      intro message member
      rw [connectionStep, (resume_frame call sending conn).1] at member
      exact only message member
  | answer fields =>
      intro message member
      simp only [connectionStep, Connection.answer] at member
      split at member
      · exact only message member
      · rcases List.mem_append.mp member with earlier | last
        · exact only message earlier
        · obtain rfl := List.mem_singleton.mp last
          simp [SsMessage.answered]
  | hasFile => cases answers
  | filesDone => cases answers
  | writeComplete => cases answers
  | read now =>
      exact only.read ss now
  | fail =>
      intro message member
      simp only [connectionStep, Connection.fail] at member
      split at member
      · exact only message member
      · exact only message member

/-- Without notices, what the guard asks for is enough in every step. -/
theorem ExchangeSound.step
    {conn : Connection}
    (sound : ExchangeSound conn)
    (only : conn.OnlyAnswers)
    (ss : StorageServerInfo)
    {event : ConnectionEvent}
    (spares : conn.SparesReply event)
    (answers : event.isNotice = false) :
    ExchangeSound (connectionStep ss conn event) := by
  cases event with
  | call =>
      exact sound.call
  | resume call sending =>
      exact sound.resume spares sending
  | answer fields =>
      exact sound.answer fields
  | hasFile => cases answers
  | filesDone => cases answers
  | writeComplete => cases answers
  | read now =>
      refine sound.read ss now fun message rest _ next notice => ?_
      exact absurd notice (only message (next ▸ .head _))
  | fail =>
      exact sound.fail

/--
On a connection that only carries replies, every call that succeeds returns the
reply to its own request and no reply is lost, as long as no call ends its
first wait between the delivery of a reply and the return of the call it is
for.
-/
theorem ownReplies_of_sparesReply
    (ss : StorageServerInfo)
    (reader : ReaderPhase)
    (ns : NameServer)
    (events : List ConnectionEvent)
    (onlyReplies : ∀ event ∈ events, event.isNotice = false)
    (guarded :
      GuardedRun (connectionStep ss) Connection.SparesReply
        (.opened reader ns) events) :
    let final := runFrom (connectionStep ss) (.opened reader ns) events
    final.OwnReplies ∧ final.lost = [] := by
  have preserved :
      ∀ conn event,
        ExchangeSound conn ∧ conn.OnlyAnswers →
          conn.SparesReply event ∧ event.isNotice = false →
            ExchangeSound (connectionStep ss conn event) ∧
              (connectionStep ss conn event).OnlyAnswers :=
    fun conn event sound allowed =>
      ⟨sound.1.step sound.2 ss allowed.1 allowed.2,
        sound.2.step ss allowed.2⟩
  have reached :=
    GuardedRun.invariant preserved
      ⟨ExchangeSound.opened reader ns, by simp [Connection.OnlyAnswers,
        Connection.opened]⟩
      (guarded.and (.of_forall_mem onlyReplies))
  exact ⟨reached.1.ownReplies, reached.1.nothingLost⟩

/-- Two calls, the second of which waits for the first to return. -/
def secondCallWaits : List ConnectionEvent :=
  [.call, .call, .resume 0 .sent, .resume 1 .sent,
    .answer [str "OK", str "first"], .read 0, .resume 0 .sent,
    .resume 1 .sent, .answer [str "OK", str "second"], .read 0,
    .resume 1 .sent]

theorem ownReplies_secondCallWaits :
    let final :=
      runFrom (connectionStep someStorageServer) (.opened .serving nsInit)
        secondCallWaits
    final.OwnReplies ∧ final.lost = [] :=
  ownReplies_of_sparesReply someStorageServer .serving nsInit secondCallWaits
    (by decide) (by decide +kernel)

/-- A call that arrives before the first one has taken its reply. -/
def secondCallOvertakes : List ConnectionEvent :=
  [.call, .resume 0 .sent, .answer [str "OK", str "first"], .read 0,
    .call, .resume 1 .sent, .answer [str "OK", str "second"], .read 0,
    .resume 0 .sent]

/-- The first call returns the reply to the second, and its own is freed. -/
theorem reply_taken_secondCallOvertakes :
    let final :=
      runFrom (connectionStep someStorageServer) (.opened .serving nsInit)
        secondCallOvertakes
    (∀ event ∈ secondCallOvertakes, event.isNotice = false) ∧
      final.calls[0]? =
        some (.finished
          (.returned (.reply 1 [str "OK", str "second"]))) ∧
      ¬final.OwnReplies ∧
      final.lost = [.reply 0 [str "OK", str "first"]] := by
  refine ⟨by decide, rfl, fun own => ?_, rfl⟩
  have wrong := own 0 (.reply 1 [str "OK", str "second"]) rfl
  cases wrong

end DistributedDocs
