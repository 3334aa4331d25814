import Mathlib.Logic.Function.Basic
import DistributedDocs.ServerReplies

namespace DistributedDocs

/-!
# Waiting under the state lock

`MOVE` and `DELETE` hold `state_lock` while they wait for storage servers, and
a reader takes `state_lock` to apply what it has not handed to a call, again in
`ns_save_metadata` after a `WRITE_COMPLETE`, and to deregister its server when
the connection has failed.  Here the reader's decision and its taking of the
lock are two steps.
-/

/-- What a reader needs `state_lock` for. -/
inductive Errand where
  | reset
  | apply (message : SsMessage)
  | save
  | deregister
  deriving DecidableEq

/--
A connection and its reader; `errand` is what the reader has decided to do and
has not yet had `state_lock` for.
-/
structure ServerThreads where
  conn : Connection
  errand : Option Errand

/--
`holder` is the client handler that holds `state_lock`, and `inCall` says for
each handler which call of `storage_server_send_and_wait` it is in, by server
and by number.  The file tables of the connections play no part.
-/
structure LockSystem where
  holder : Option Nat
  inCall : Nat → Option (Nat × Nat)
  servers : Nat → ServerThreads

/-- Every reader begins by resetting the load of its server. -/
def LockSystem.started (ns : NameServer) : LockSystem where
  holder := none
  inCall _ := none
  servers _ :=
    { conn := .opened .syncing ns
      errand := some .reset }

/-- The messages `run_ss_loop` takes `state_lock` for. -/
def takesStateLock : ReaderPhase → SsMessage → Bool
  | .syncing, .hasFile fields =>
      match hasFileOf fields with
      | none => false
      | some file =>
          validateFilename file.filename &&
            (file.owner = [] || validateUsername file.owner)
  | .syncing, .filesDone =>
      true
  | .serving, .writeComplete fields =>
      5 ≤ fields.length
  | _, _ => false

/-- The messages after which `ns_save_metadata` takes `state_lock` again. -/
def savesAfter : ReaderPhase → SsMessage → Bool
  | .serving, .writeComplete fields =>
      5 ≤ fields.length
  | _, _ => false

namespace ServerThreads

variable (ss : StorageServerInfo)

/-- The reader takes a message and decides what to do with it. -/
def decide (now : Int) (threads : ServerThreads) : ServerThreads :=
  if threads.errand.isSome || threads.conn.reader = .ended then
    threads
  else
    match threads.conn.stream with
    | [] => threads
    | message :: rest =>
        let taken :=
          { threads.conn with
            stream := rest
            seen := threads.conn.seen ++ [(now, message)] }
        if taken.awaitingResponse && !taken.responseReady then
          { threads with conn := taken.dispatch message }
        else if takesStateLock taken.reader message then
          { conn := taken
            errand := some (.apply message) }
        else
          { threads with conn := taken.drop message }

/--
The reader has `state_lock`, does its errand and gives the lock up.  It then
goes to save if it has updated an entry; `known` says whether the table has the
file of the message.
-/
def runErrand (now : Int) (known : Bool) (threads : ServerThreads) :
    ServerThreads :=
  match threads.errand with
  | some (.apply message) =>
      { conn := threads.conn.handle ss now message
        errand :=
          if savesAfter threads.conn.reader message && known then some .save
          else none }
  | some .reset | some .save | some .deregister | none =>
      { threads with errand := none }

/-- The reader finds the connection closed and goes to deregister the server. -/
def fail (threads : ServerThreads) : ServerThreads :=
  if threads.errand.isSome || threads.conn.reader = .ended then
    threads
  else
    { conn := threads.conn.fail
      errand := some .deregister }

end ServerThreads

/-! ## Runs -/

/-- What a handler, a reader or a storage server does next. -/
inductive LockEvent where
  | lock (handler : Nat)
  | unlock (handler : Nat)
  | call (handler server : Nat)
  | resume (handler : Nat) (sending : Sending)
  | returns (handler : Nat)
  | sends (server : Nat) (event : ConnectionEvent)
  | decides (server : Nat) (now : Int)
  | runsErrand (server : Nat) (now : Int) (known : Bool)
  | fails (server : Nat)
  deriving DecidableEq

/-- What the storage server itself does on its connection. -/
def ConnectionEvent.isSent : ConnectionEvent → Bool
  | .answer _ | .hasFile _ | .filesDone | .writeComplete _ _ _ _ =>
      true
  | _ => false

namespace LockSystem

/-- Change the threads of one server. -/
def changeThreads
    (server : Nat)
    (change : ServerThreads → ServerThreads)
    (system : LockSystem) : LockSystem :=
  { system with
    servers :=
      Function.update system.servers server (change (system.servers server)) }

/-- Change the connection of one server. -/
def changeConn
    (server : Nat)
    (change : Connection → Connection)
    (system : LockSystem) : LockSystem :=
  system.changeThreads server fun threads =>
    { threads with conn := change threads.conn }

/-- The handler enters a call, or leaves it. -/
def setCall
    (handler : Nat)
    (call : Option (Nat × Nat))
    (system : LockSystem) : LockSystem :=
  { system with inCall := Function.update system.inCall handler call }

end LockSystem

/-- One step of one thread. -/
def lockStep
    (ss : Nat → StorageServerInfo)
    (system : LockSystem) :
    LockEvent → LockSystem
  | .lock handler =>
      if system.holder = none ∧ system.inCall handler = none then
        { system with holder := some handler }
      else
        system
  | .unlock handler =>
      if system.holder = some handler ∧ system.inCall handler = none then
        { system with holder := none }
      else
        system
  | .call handler server =>
      match system.inCall handler with
      | some _ => system
      | none =>
          (system.setCall handler
              (some (server, (system.servers server).conn.calls.length)))
            |>.changeConn server Connection.call
  | .resume handler sending =>
      match system.inCall handler with
      | none => system
      | some (server, call) =>
          system.changeConn server (Connection.resume call sending)
  | .returns handler =>
      match system.inCall handler with
      | none => system
      | some (server, call) =>
          if ((system.servers server).conn.calls[call]?).any
              CallPhase.isFinished then
            system.setCall handler none
          else
            system
  | .sends server event =>
      if event.isSent then
        system.changeConn server fun conn =>
          connectionStep (ss server) conn event
      else
        system
  | .decides server now =>
      system.changeThreads server (ServerThreads.decide now)
  | .runsErrand server now known =>
      if system.holder = none then
        system.changeThreads server
          (ServerThreads.runErrand (ss server) now known)
      else
        system
  | .fails server =>
      system.changeThreads server ServerThreads.fail

/-- Without the lock, a message is only freed. -/
theorem handle_of_not_takesStateLock
    (ss : StorageServerInfo)
    (now : Int)
    {message : SsMessage}
    {conn : Connection}
    (unlocked : takesStateLock conn.reader message = false) :
    conn.handle ss now message = conn.drop message := by
  unfold Connection.handle
  split
  · next fields syncing =>
    simp only [syncing, takesStateLock] at unlocked
    cases parsed : hasFileOf fields with
    | none =>
        simp [applyHasFile, parsed]
    | some file =>
        simp only [parsed, Bool.and_eq_false_iff] at unlocked
        rcases unlocked with invalid | invalid
        · simp [applyHasFile, parsed, invalid]
        · cases nameValid : validateFilename file.filename with
          | false =>
              simp [applyHasFile, parsed, nameValid]
          | true =>
              have refused :
                  (file.owner ≠ [] && !validateUsername file.owner) = true := by
                simpa using invalid
              simp only [applyHasFile, parsed, nameValid, refused,
                Bool.not_true, Bool.false_eq_true, ↓reduceIte]
  · next syncing =>
    simp [syncing, takesStateLock] at unlocked
  · next fields serving =>
    simp only [serving, takesStateLock, decide_eq_false_iff_not] at unlocked
    rw [if_pos (Nat.not_le.mp unlocked)]
  · rfl

/-- The reader's two steps are one turn of its loop. -/
theorem runErrand_decide
    (ss : StorageServerInfo)
    (now : Int)
    (known : Bool)
    (conn : Connection) :
    (ServerThreads.runErrand ss now known
        (ServerThreads.decide now ⟨conn, none⟩)).conn =
      conn.read ss now := by
  unfold ServerThreads.decide Connection.read
  simp only [Option.isSome_none, Bool.false_or, decide_eq_true_eq]
  split
  · rfl
  · cases conn.stream with
    | nil =>
        rfl
    | cons message rest =>
        simp only
        split
        · rfl
        · split
          · rfl
          · next unlocked =>
            refine (handle_of_not_takesStateLock ss now ?_).symm
            exact Bool.eq_false_of_not_eq_true unlocked

/-! ## What is excluded -/

namespace LockSystem

/-- The call waits for something only the reader can bring about. -/
def Waits (conn : Connection) (call : Nat) : Prop :=
  (conn.calls[call]? = some .awaitingReply ∧ conn.responseReady = false) ∨
    (conn.calls[call]? = some .queued ∧ conn.awaitingResponse = true)

/--
A handler that holds `state_lock` waits for the reader of a server, and the
reader waits for `state_lock`.
-/
def Deadlocked (system : LockSystem) : Prop :=
  ∃ handler server call,
    system.holder = some handler ∧
      system.inCall handler = some (server, call) ∧
      (system.servers server).errand ≠ none ∧
      Waits (system.servers server).conn call

/-- A handler in a call to the server holds `state_lock`. -/
def HolderCalls (system : LockSystem) (server : Nat) : Prop :=
  ∃ handler ∈ system.holder, ∃ call ∈ system.inCall handler, call.1 = server

/--
No call to a server that is alive goes to wait while the reader of this server
waits for a `state_lock` that a handler calling it holds, and none ends its
first wait while another has not taken its reply or its failure.
-/
def StartsApart (system : LockSystem) : LockEvent → Prop
  | .resume handler _ =>
      ∀ call ∈ system.inCall handler,
        (system.servers call.1).conn.BeforeSending call.2 →
          ((system.servers call.1).conn.isAlive = true →
              (system.servers call.1).errand = none ∨
                ¬system.HolderCalls call.1) ∧
            ((system.servers call.1).conn.awaitingResponse = false →
              (system.servers call.1).conn.responseReady = false)
  | _ => True

section Decidable

variable (system : LockSystem)

instance (server : Nat) : Decidable (system.HolderCalls server) :=
  inferInstanceAs
    (Decidable
      (∃ handler ∈ system.holder, ∃ call ∈ system.inCall handler,
        call.1 = server))

instance : ∀ event, Decidable (system.StartsApart event)
  | .resume handler _ =>
      inferInstanceAs
        (Decidable
          (∀ call ∈ system.inCall handler,
            (system.servers call.1).conn.BeforeSending call.2 →
              ((system.servers call.1).conn.isAlive = true →
                  (system.servers call.1).errand = none ∨
                    ¬system.HolderCalls call.1) ∧
                ((system.servers call.1).conn.awaitingResponse = false →
                  (system.servers call.1).conn.responseReady = false)))
  | .lock _ | .unlock _ | .call _ _ | .returns _ | .sends _ _ | .decides _ _
  | .runsErrand _ _ _ | .fails _ =>
      inferInstanceAs (Decidable True)

end Decidable

end LockSystem

/-! ## The slot of one connection -/

/--
The flags say whether a call is in its second wait, and on a connection that
has failed none is awaited.
-/
structure SlotSound (conn : Connection) : Prop where
  unready : conn.awaitingResponse = true → conn.responseReady = false
  served :
    ∀ call : Nat, conn.calls[call]? = some .awaitingReply →
      conn.responseReady = true ∨ conn.awaitingResponse = true
  one :
    ∀ first second : Nat,
      conn.calls[first]? = some .awaitingReply →
        conn.calls[second]? = some .awaitingReply → first = second
  closed : conn.isAlive = false → conn.awaitingResponse = false

namespace SlotSound

variable {conn : Connection}

theorem opened (reader : ReaderPhase) (ns : NameServer) :
    SlotSound (.opened reader ns) where
  unready := by simp [Connection.opened]
  served := by simp [Connection.opened]
  one := by simp [Connection.opened]
  closed := by simp [Connection.opened]

/-- A change that leaves the flags and the waiting calls alone. -/
theorem of_same
    (sound : SlotSound conn)
    {after : Connection}
    (alive : after.isAlive = conn.isAlive)
    (awaiting : after.awaitingResponse = conn.awaitingResponse)
    (ready : after.responseReady = conn.responseReady)
    (waits :
      ∀ call : Nat, after.calls[call]? = some .awaitingReply →
        conn.calls[call]? = some .awaitingReply) :
    SlotSound after where
  unready isAwaiting := ready.trans (sound.unready (awaiting ▸ isAwaiting))
  served call waiting := by
    rw [ready, awaiting]
    exact sound.served call (waits call waiting)
  one first second firstWaits secondWaits :=
    sound.one first second (waits first firstWaits) (waits second secondWaits)
  closed dead := awaiting.trans (sound.closed (alive ▸ dead))

/-- Once the connection has failed, its reader is waited for in vain by none. -/
theorem not_waits
    (sound : SlotSound conn)
    (dead : conn.isAlive = false)
    (call : Nat) :
    ¬LockSystem.Waits conn call := by
  have clear : conn.awaitingResponse = false := sound.closed dead
  rintro (⟨waiting, unready⟩ | ⟨_, awaiting⟩)
  · rcases sound.served call waiting with ready | awaiting
    · rw [unready] at ready
      cases ready
    · rw [clear] at awaiting
      cases awaiting
  · rw [clear] at awaiting
    cases awaiting

theorem call (sound : SlotSound conn) : SlotSound conn.call := by
  refine sound.of_same rfl rfl rfl fun call waiting => ?_
  simp only [Connection.call, List.getElem?_append] at waiting
  split at waiting
  · exact waiting
  · cases at_ : call - conn.calls.length <;> rw [at_] at waiting <;>
      split at waiting <;> simp at waiting

/-- While nothing is awaited or held, no call is in its second wait. -/
theorem nobody
    (sound : SlotSound conn)
    (clear : conn.awaitingResponse = false)
    (taken : conn.responseReady = false)
    (call : Nat) :
    conn.calls[call]? ≠ some .awaitingReply := by
  intro waiting
  rcases sound.served call waiting with ready | awaiting
  · rw [taken] at ready
    cases ready
  · rw [clear] at awaiting
    cases awaiting

theorem sendRequest
    (sound : SlotSound conn)
    {call : Nat}
    (before : conn.BeforeSending call)
    (clear : conn.awaitingResponse = false)
    (taken : conn.responseReady = false)
    (sending : Sending) :
    SlotSound (conn.sendRequest call sending) := by
  obtain ⟨phase, held⟩ : ∃ phase, conn.calls[call]? = some phase := by
    rcases before with entering | queued
    · exact ⟨_, entering⟩
    · exact ⟨_, queued⟩
  have unsent (code : Int) :
      SlotSound
        (Connection.setCall call (.finished (.failed code))
          { conn.freeResponse with
            responseReady := false
            responseStatus := 0 }) := by
    have stillNobody (other : Nat) :
        (conn.calls.set call (.finished (.failed code)))[other]? ≠
          some .awaitingReply := by
      rw [getElem?_set_call held]
      split
      · simp
      · exact sound.nobody clear taken other
    exact
      { unready := fun _ => rfl
        served := fun other waiting => absurd waiting (stillNobody other)
        one := fun first _ waiting => absurd waiting (stillNobody first)
        closed := sound.closed }
  unfold Connection.sendRequest
  cases sending with
  | unbuildable =>
      exact unsent _
  | unsendable =>
      exact unsent _
  | sent =>
      simp only
      split
      · next alive =>
        have onlyCall
            (other : Nat)
            (waiting :
              (conn.calls.set call .awaitingReply)[other]? =
                some .awaitingReply) :
            other = call := by
          rw [getElem?_set_call held] at waiting
          split at waiting
          · assumption
          · exact absurd waiting (sound.nobody clear taken other)
        exact
          { unready := fun _ => rfl
            served := fun _ _ => .inr rfl
            one := fun first second firstWaits secondWaits =>
              (onlyCall first firstWaits).trans
                (onlyCall second secondWaits).symm
            closed := fun dead =>
              Bool.noConfusion (alive.symm.trans dead) }
      · exact unsent _

theorem takeResponse
    (sound : SlotSound conn)
    {call : Nat}
    (waiting : conn.calls[call]? = some .awaitingReply) :
    SlotSound (conn.takeResponse call) := by
  have nobodyAfter
      (result : CallResult)
      (other : Nat) :
      (conn.calls.set call (.finished result))[other]? ≠
        some .awaitingReply := by
    rw [getElem?_set_call waiting]
    split
    · simp
    · next different =>
      exact fun otherWaits =>
        different (sound.one other call otherWaits waiting)
  unfold Connection.takeResponse
  split
  · exact sound
  · split
    · exact
        { unready := fun _ => rfl
          served := fun other otherWaits =>
            absurd otherWaits (nobodyAfter _ other)
          one := fun first _ firstWaits =>
            absurd firstWaits (nobodyAfter _ first)
          closed := fun _ => rfl }
    · exact
        { unready := fun _ => rfl
          served := fun other otherWaits =>
            absurd otherWaits (nobodyAfter _ other)
          one := fun first _ firstWaits =>
            absurd firstWaits (nobodyAfter _ first)
          closed := fun _ => rfl }

theorem queued
    (sound : SlotSound conn)
    {call : Nat}
    (before : conn.BeforeSending call) :
    SlotSound (conn.setCall call .queued) := by
  obtain ⟨phase, held⟩ : ∃ phase, conn.calls[call]? = some phase := by
    rcases before with entering | queued
    · exact ⟨_, entering⟩
    · exact ⟨_, queued⟩
  refine sound.of_same rfl rfl rfl fun other waiting => ?_
  simp only [Connection.setCall, getElem?_set_call held] at waiting
  split at waiting
  · simp at waiting
  · exact waiting

theorem resume
    (sound : SlotSound conn)
    {call : Nat}
    (spares :
      conn.BeforeSending call → conn.awaitingResponse = false →
        conn.responseReady = false)
    (sending : Sending) :
    SlotSound (conn.resume call sending) := by
  have sends (before : conn.BeforeSending call) :
      SlotSound
        (if conn.awaitingResponse then conn.setCall call .queued
        else conn.sendRequest call sending) := by
    split
    · exact sound.queued before
    · next clear =>
      have clear := Bool.eq_false_of_not_eq_true clear
      exact sound.sendRequest before clear (spares before clear) sending
  unfold Connection.resume
  split
  · next entering =>
    exact sends (.inl entering)
  · next queued =>
    exact sends (.inr queued)
  · next waiting =>
    exact sound.takeResponse waiting
  · exact sound

theorem dispatch
    (sound : SlotSound conn)
    (message : SsMessage)
    (stream : List SsMessage)
    (seen : List (Int × SsMessage)) :
    SlotSound
      (Connection.dispatch message
        { conn with stream := stream, seen := seen }) where
  unready awaiting := by cases awaiting
  served _ _ := .inl rfl
  one := sound.one
  closed _ := rfl

theorem fail (sound : SlotSound conn) : SlotSound conn.fail := by
  unfold Connection.fail
  simp only
  split
  · exact
      { unready := fun awaiting => by cases awaiting
        served := fun _ _ => .inl rfl
        one := sound.one
        closed := fun _ => rfl }
  · next unawaited =>
    have clear : conn.awaitingResponse = false := by
      by_contra awaiting
      have awaiting := Bool.eq_true_of_not_eq_false awaiting
      exact unawaited (by simp [awaiting, sound.unready awaiting])
    exact
      { unready := sound.unready
        served := sound.served
        one := sound.one
        closed := fun _ => clear }

end SlotSound

/-! ## The invariant -/

/-- Slots are sound, calls belong to one handler, and nothing is blocked. -/
structure LockSound (system : LockSystem) : Prop where
  slots : ∀ server, SlotSound (system.servers server).conn
  owners :
    ∀ first second call,
      system.inCall first = some call → system.inCall second = some call →
        first = second
  known :
    ∀ handler server call,
      system.inCall handler = some (server, call) →
        call < (system.servers server).conn.calls.length
  alive : ¬system.Deadlocked

theorem LockSystem.HolderCalls.intro
    {system : LockSystem}
    {handler server call : Nat}
    (holds : system.holder = some handler)
    (calls : system.inCall handler = some (server, call)) :
    system.HolderCalls server :=
  ⟨handler, holds, (server, call), calls, rfl⟩

namespace LockSound

variable {system : LockSystem}

theorem started (ns : NameServer) : LockSound (.started ns) where
  slots _ := .opened .syncing ns
  owners _ _ _ inCall := by cases inCall
  known _ _ _ inCall := by cases inCall
  alive := by
    rintro ⟨_, _, _, holds, _⟩
    cases holds

/-- A change of one server's threads that blocks no handler in a call there. -/
theorem changeThreads
    (sound : LockSound system)
    (server : Nat)
    {change : ServerThreads → ServerThreads}
    (slot : SlotSound (change (system.servers server)).conn)
    (calls :
      (system.servers server).conn.calls.length ≤
        (change (system.servers server)).conn.calls.length)
    (blocks :
      ∀ handler call,
        system.holder = some handler →
          system.inCall handler = some (server, call) →
            (change (system.servers server)).errand ≠ none →
              LockSystem.Waits (change (system.servers server)).conn call →
                (system.servers server).errand ≠ none ∧
                  LockSystem.Waits (system.servers server).conn call) :
    LockSound (system.changeThreads server change) := by
  refine
    { slots := fun other => ?_
      owners := sound.owners
      known := fun handler other call inCall => ?_
      alive := ?_ }
  · by_cases same : other = server
    · subst other
      simpa [LockSystem.changeThreads] using slot
    · simpa [LockSystem.changeThreads, same] using sound.slots other
  · have earlier := sound.known handler other call inCall
    by_cases same : other = server
    · subst other
      simpa [LockSystem.changeThreads] using Nat.lt_of_lt_of_le earlier calls
    · simpa [LockSystem.changeThreads, same] using earlier
  · rintro ⟨handler, other, call, holds, inCall, busy, waits⟩
    by_cases same : other = server
    · subst other
      simp only [LockSystem.changeThreads, Function.update_self] at busy waits
      obtain ⟨wasBusy, waited⟩ := blocks handler call holds inCall busy waits
      exact sound.alive ⟨handler, server, call, holds, inCall, wasBusy, waited⟩
    · simp only [LockSystem.changeThreads, ne_eq, same, not_false_eq_true,
        Function.update_of_ne] at busy waits
      exact sound.alive ⟨handler, other, call, holds, inCall, busy, waits⟩

theorem lock
    (sound : LockSound system)
    {handler : Nat}
    (idle : system.inCall handler = none) :
    LockSound { system with holder := some handler } where
  slots := sound.slots
  owners := sound.owners
  known := sound.known
  alive := by
    rintro ⟨holder, server, call, holds, inCall, _, _⟩
    cases holds
    simp [idle] at inCall

theorem unlock (sound : LockSound system) :
    LockSound { system with holder := none } where
  slots := sound.slots
  owners := sound.owners
  known := sound.known
  alive := by
    rintro ⟨_, _, _, holds, _⟩
    cases holds

/-- A call that has been entered waits for nothing yet. -/
theorem waits_call
    {conn : Connection}
    {call : Nat}
    (waits : LockSystem.Waits conn.call call) :
    call < conn.calls.length ∧ LockSystem.Waits conn call := by
  have inRange : call < conn.calls.length := by
    by_contra beyond
    have entered :
        conn.call.calls[call]? ≠ some .awaitingReply ∧
          conn.call.calls[call]? ≠ some .queued := by
      simp only [Connection.call, List.getElem?_append, if_neg beyond]
      cases call - conn.calls.length <;> split <;> simp
    rcases waits with ⟨waiting, _⟩ | ⟨queued, _⟩
    · exact entered.1 waiting
    · exact entered.2 queued
  have same : conn.call.calls[call]? = conn.calls[call]? := by
    simp [Connection.call, List.getElem?_append, inRange]
  rw [LockSystem.Waits, same] at waits
  exact ⟨inRange, waits⟩

theorem call
    (sound : LockSound system)
    {handler : Nat}
    (idle : system.inCall handler = none)
    (server : Nat) :
    LockSound
      ((system.setCall handler
          (some (server, (system.servers server).conn.calls.length)))
        |>.changeConn server Connection.call) := by
  have entered :
      ∀ other call,
        (system.setCall handler
            (some (server, (system.servers server).conn.calls.length))).inCall
            other = some call →
          other = handler ∧
              call = (server, (system.servers server).conn.calls.length) ∨
            other ≠ handler ∧ system.inCall other = some call := by
    intro other call inCall
    by_cases same : other = handler
    · subst other
      simp only [LockSystem.setCall, Function.update_self, Option.some.injEq]
        at inCall
      exact .inl ⟨rfl, inCall.symm⟩
    · simp only [LockSystem.setCall, ne_eq, same, not_false_eq_true,
        Function.update_of_ne] at inCall
      exact .inr ⟨same, inCall⟩
  refine
    { slots := fun other => ?_
      owners := fun first second call firstCalls secondCalls => ?_
      known := fun other at_ call inCall => ?_
      alive := ?_ }
  · by_cases same : other = server
    · subst other
      simpa [LockSystem.changeConn, LockSystem.changeThreads,
        LockSystem.setCall] using (sound.slots server).call
    · simpa [LockSystem.changeConn, LockSystem.changeThreads,
        LockSystem.setCall, same] using sound.slots other
  · rcases entered first call firstCalls with ⟨rfl, rfl⟩ | ⟨_, earlier⟩
    · rcases entered second _ secondCalls with ⟨rfl, _⟩ | ⟨_, others⟩
      · rfl
      · have inRange := sound.known second _ _ others
        omega
    · rcases entered second call secondCalls with ⟨rfl, rfl⟩ | ⟨_, others⟩
      · have inRange := sound.known first _ _ earlier
        omega
      · exact sound.owners first second call earlier others
  · rcases entered other (at_, call) inCall with ⟨_, same⟩ | ⟨_, earlier⟩
    · cases same
      simp [LockSystem.changeConn, LockSystem.changeThreads,
        LockSystem.setCall, Connection.call]
    · have inRange := sound.known other at_ call earlier
      by_cases same : at_ = server
      · subst at_
        simp only [LockSystem.changeConn, LockSystem.changeThreads,
          LockSystem.setCall, Function.update_self, Connection.call,
          List.length_append]
        omega
      · simpa [LockSystem.changeConn, LockSystem.changeThreads,
          LockSystem.setCall, same] using inRange
  · rintro ⟨holder, at_, call, holds, inCall, busy, waits⟩
    by_cases same : at_ = server
    · subst at_
      simp only [LockSystem.changeConn, LockSystem.changeThreads,
        LockSystem.setCall, Function.update_self] at busy waits
      obtain ⟨inRange, waited⟩ := waits_call waits
      rcases entered holder (server, call) inCall with ⟨_, new⟩ | ⟨_, earlier⟩
      · cases new
        omega
      · exact sound.alive ⟨holder, server, call, holds, earlier, busy, waited⟩
    · simp only [LockSystem.changeConn, LockSystem.changeThreads,
        LockSystem.setCall, ne_eq, same, not_false_eq_true,
        Function.update_of_ne] at busy waits
      rcases entered holder (at_, call) inCall with ⟨_, new⟩ | ⟨_, earlier⟩
      · cases new
        exact same rfl
      · exact sound.alive ⟨holder, at_, call, holds, earlier, busy, waits⟩

theorem returns
    (sound : LockSound system)
    (handler : Nat) :
    LockSound (system.setCall handler none) := by
  have earlier :
      ∀ other call, (system.setCall handler none).inCall other = some call →
        system.inCall other = some call := by
    intro other call inCall
    by_cases same : other = handler
    · subst other
      simp [LockSystem.setCall] at inCall
    · simpa [LockSystem.setCall, same] using inCall
  exact
    { slots := sound.slots
      owners := fun first second call firstCalls secondCalls =>
        sound.owners first second call (earlier first call firstCalls)
          (earlier second call secondCalls)
      known := fun other server call inCall =>
        sound.known other server call (earlier other _ inCall)
      alive := by
        rintro ⟨holder, server, call, holds, inCall, busy, waits⟩
        exact sound.alive
          ⟨holder, server, call, holds, earlier holder _ inCall, busy, waits⟩ }

/-- Taking a response leaves no other call to the same server waiting. -/
theorem waits_takeResponse
    {conn : Connection}
    (slot : SlotSound conn)
    {taker call : Nat}
    (taking : conn.calls[taker]? = some .awaitingReply)
    (waits : LockSystem.Waits (conn.takeResponse taker) call) :
    LockSystem.Waits conn call := by
  have nothingWaits
      (result : CallResult)
      (waiting :
        (conn.calls.set taker (.finished result))[call]? =
          some .awaitingReply) :
      False := by
    rw [getElem?_set_call taking] at waiting
    split at waiting
    · simp at waiting
    · next different =>
      exact different (slot.one call taker waiting taking)
  unfold Connection.takeResponse at waits
  split at waits
  · exact waits
  · split at waits
    · rcases waits with ⟨waiting, _⟩ | ⟨_, awaiting⟩
      · exact (nothingWaits _ waiting).elim
      · cases awaiting
    · rcases waits with ⟨waiting, _⟩ | ⟨_, awaiting⟩
      · exact (nothingWaits _ waiting).elim
      · cases awaiting

theorem length_calls_resume
    (call : Nat)
    (sending : Sending)
    (conn : Connection) :
    (conn.resume call sending).calls.length = conn.calls.length := by
  unfold Connection.resume Connection.sendRequest Connection.takeResponse
  repeat' split
  all_goals simp [Connection.setCall, Connection.freeResponse]

theorem isAlive_resume
    (call : Nat)
    (sending : Sending)
    (conn : Connection) :
    (conn.resume call sending).isAlive = conn.isAlive := by
  unfold Connection.resume Connection.sendRequest Connection.takeResponse
  repeat' split
  all_goals rfl

theorem resume
    (sound : LockSound system)
    {handler server call : Nat}
    (inCall : system.inCall handler = some (server, call))
    (sending : Sending)
    (apart : system.StartsApart (.resume handler sending)) :
    LockSound (system.changeConn server (Connection.resume call sending)) := by
  have starts := apart (server, call) inCall
  have slot :
      SlotSound ((system.servers server).conn.resume call sending) :=
    (sound.slots server).resume (fun before => (starts before).2) sending
  refine sound.changeThreads server ?_ ?_ ?_
  · exact slot
  · exact (length_calls_resume call sending _).ge
  · intro holder own holds ownCall busy waits
    refine ⟨busy, ?_⟩
    have alive : (system.servers server).conn.isAlive = true := by
      by_contra dead
      refine slot.not_waits ?_ own waits
      exact (isAlive_resume call sending _).trans
        (Bool.eq_false_of_not_eq_true dead)
    have notStarting : ¬(system.servers server).conn.BeforeSending call := by
      intro before
      rcases (starts before).1 alive with free | unheld
      · exact busy free
      · exact unheld (.intro holds ownCall)
    simp only [Connection.resume] at waits
    split at waits
    · next entering =>
      exact (notStarting (.inl entering)).elim
    · next queued =>
      exact (notStarting (.inr queued)).elim
    · next waiting =>
      exact waits_takeResponse (sound.slots server) waiting waits
    · exact waits

/-- What a storage server sends reaches only the stream. -/
theorem sent_frame
    (ss : StorageServerInfo)
    (conn : Connection)
    {event : ConnectionEvent}
    (isSent : event.isSent = true) :
    let after := connectionStep ss conn event
    after.isAlive = conn.isAlive ∧
      after.awaitingResponse = conn.awaitingResponse ∧
      after.responseReady = conn.responseReady ∧
      after.calls = conn.calls := by
  cases event with
  | call => cases isSent
  | resume => cases isSent
  | read => cases isSent
  | fail => cases isSent
  | answer fields =>
      simp only [connectionStep, Connection.answer]
      split <;> exact ⟨rfl, rfl, rfl, rfl⟩
  | hasFile fields =>
      simp only [connectionStep]
      split <;> exact ⟨rfl, rfl, rfl, rfl⟩
  | filesDone =>
      simp only [connectionStep]
      split <;> exact ⟨rfl, rfl, rfl, rfl⟩
  | writeComplete =>
      exact ⟨rfl, rfl, rfl, rfl⟩

theorem sends
    (sound : LockSound system)
    (ss : StorageServerInfo)
    (server : Nat)
    {event : ConnectionEvent}
    (isSent : event.isSent = true) :
    LockSound
      (system.changeConn server fun conn => connectionStep ss conn event) := by
  obtain ⟨alive, awaiting, ready, calls⟩ :=
    sent_frame ss (system.servers server).conn isSent
  refine sound.changeThreads server ?_ ?_ ?_
  · exact (sound.slots server).of_same alive awaiting ready
      (fun _ waiting => calls ▸ waiting)
  · exact (congrArg List.length calls).ge
  · intro _ call _ _ busy waits
    simp only [LockSystem.Waits, calls, ready, awaiting] at waits
    exact ⟨busy, waits⟩

/-- A reader that decides to take the lock has found no call waiting. -/
theorem decides
    (sound : LockSound system)
    (server : Nat)
    (now : Int) :
    LockSound (system.changeThreads server (ServerThreads.decide now)) := by
  have slot := sound.slots server
  cases threads : system.servers server with
  | mk conn pending =>
    rw [threads] at slot
    have slot : SlotSound conn := slot
    have unchanged (same : ServerThreads.decide now ⟨conn, pending⟩ =
        ⟨conn, pending⟩) :
        LockSound
          (system.changeThreads server (ServerThreads.decide now)) := by
      refine sound.changeThreads server ?_ ?_ ?_
      · rw [threads, same]
        exact slot
      · rw [threads, same]
      · intro _ _ _ _ busy waits
        rw [threads, same] at busy waits
        rw [threads]
        exact ⟨busy, waits⟩
    by_cases idle : (pending.isSome || conn.reader = .ended) = true
    · exact unchanged (by simp only [ServerThreads.decide, if_pos idle])
    · have free : pending = none := by
        cases pending with
        | none => rfl
        | some _ => simp at idle
      cases stream : conn.stream with
      | nil =>
          exact unchanged (by
            simp only [ServerThreads.decide, if_neg idle, stream])
      | cons message rest =>
          have decided :
              ServerThreads.decide now ⟨conn, pending⟩ =
                let taken :=
                  { conn with
                    stream := rest
                    seen := conn.seen ++ [(now, message)] }
                if conn.awaitingResponse && !conn.responseReady then
                  ⟨taken.dispatch message, pending⟩
                else if takesStateLock conn.reader message then
                  ⟨taken, some (.apply message)⟩
                else
                  ⟨taken.drop message, pending⟩ := by
            simp only [ServerThreads.decide, if_neg idle, stream]
          rw [free] at decided
          refine sound.changeThreads server ?_ ?_ ?_ <;>
            rw [threads, free, decided] <;> simp only
          · split
            · exact slot.dispatch message rest _
            · split
              · exact slot.of_same rfl rfl rfl fun _ waiting => waiting
              · exact slot.of_same rfl rfl rfl fun _ waiting => waiting
          · repeat' split
            all_goals exact Nat.le_refl _
          · intro _ call _ _
            split
            · exact fun busy => absurd rfl busy
            · next undispatched =>
              split
              · intro _ waits
                refine absurd ?_ undispatched
                rcases waits with ⟨waiting, unready⟩ | ⟨_, awaiting⟩
                · rcases slot.served call waiting with ready | awaiting
                  · rw [show conn.responseReady = false from unready] at ready
                    cases ready
                  · simp [awaiting, slot.unready awaiting]
                · have awaiting : conn.awaitingResponse = true := awaiting
                  simp [awaiting, slot.unready awaiting]
              · exact fun busy => absurd rfl busy

/-- An errand reaches neither the slot nor the calls. -/
theorem runErrand_frame
    (ss : StorageServerInfo)
    (now : Int)
    (known : Bool)
    (threads : ServerThreads) :
    let after := (threads.runErrand ss now known).conn
    after.isAlive = threads.conn.isAlive ∧
      after.awaitingResponse = threads.conn.awaitingResponse ∧
      after.responseReady = threads.conn.responseReady ∧
      after.calls = threads.conn.calls := by
  simp only [ServerThreads.runErrand]
  split
  · next message _ =>
    obtain ⟨reader, ns, lost, _, handled⟩ :=
      Connection.handle_frame ss now message threads.conn
    rw [handled]
    exact ⟨rfl, rfl, rfl, rfl⟩
  all_goals exact ⟨rfl, rfl, rfl, rfl⟩

/-- Who has run an errand had the lock, so no handler waits with it. -/
theorem runsErrand
    (sound : LockSound system)
    (free : system.holder = none)
    (ss : StorageServerInfo)
    (server : Nat)
    (now : Int)
    (known : Bool) :
    LockSound
      (system.changeThreads server
        (ServerThreads.runErrand ss now known)) := by
  obtain ⟨alive, awaiting, ready, calls⟩ :=
    runErrand_frame ss now known (system.servers server)
  refine sound.changeThreads server ?_ ?_ ?_
  · exact (sound.slots server).of_same alive awaiting ready
      (fun _ waiting => calls ▸ waiting)
  · exact (congrArg List.length calls).ge
  · intro handler _ holds
    rw [free] at holds
    cases holds

/-- Who waits for the reader of a server is let go when its connection fails. -/
theorem fails
    (sound : LockSound system)
    (server : Nat) :
    LockSound (system.changeThreads server ServerThreads.fail) := by
  have calls (conn : Connection) : conn.fail.calls = conn.calls := by
    simp only [Connection.fail]
    split <;> rfl
  have dead (conn : Connection) : conn.fail.isAlive = false := by
    simp only [Connection.fail]
    split <;> rfl
  refine sound.changeThreads server ?_ ?_ ?_ <;>
    simp only [ServerThreads.fail] <;> split
  · exact sound.slots server
  · exact (sound.slots server).fail
  · exact Nat.le_refl _
  · exact (congrArg List.length (calls _)).ge
  · exact fun _ _ _ _ busy waits => ⟨busy, waits⟩
  · intro _ call _ _ _ waits
    exact absurd waits ((sound.slots server).fail.not_waits (dead _) call)

theorem step
    (sound : LockSound system)
    (ss : Nat → StorageServerInfo)
    {event : LockEvent}
    (apart : system.StartsApart event) :
    LockSound (lockStep ss system event) := by
  cases event with
  | lock handler =>
      simp only [lockStep]
      split
      · next free =>
        exact sound.lock free.2
      · exact sound
  | unlock handler =>
      simp only [lockStep]
      split
      · exact sound.unlock
      · exact sound
  | call handler server =>
      simp only [lockStep]
      split
      · exact sound
      · next idle =>
        exact sound.call idle server
  | resume handler sending =>
      simp only [lockStep]
      split
      · exact sound
      · next inCall =>
        exact sound.resume inCall sending apart
  | returns handler =>
      simp only [lockStep]
      split
      · exact sound
      · split
        · exact sound.returns handler
        · exact sound
  | sends server event =>
      simp only [lockStep]
      split
      · next isSent =>
        exact sound.sends (ss server) server isSent
      · exact sound
  | decides server now =>
      exact sound.decides server now
  | runsErrand server now known =>
      simp only [lockStep]
      split
      · next free =>
        exact sound.runsErrand free (ss server) server now known
      · exact sound
  | fails server =>
      exact sound.fails server

end LockSound

/--
No handler that holds `state_lock` and no reader ever wait for each other, as
long as no call to a live server goes to wait while the reader of this server
waits for a `state_lock` held by a handler calling it, and no call overtakes the
outcome of another.
-/
theorem not_deadlocked_of_startsApart
    (ss : Nat → StorageServerInfo)
    (ns : NameServer)
    (events : List LockEvent)
    (apart :
      GuardedRun (lockStep ss) LockSystem.StartsApart (.started ns) events) :
    ¬(runFrom (lockStep ss) (.started ns) events).Deadlocked := by
  have preserved :
      ∀ system event,
        LockSound system → system.StartsApart event →
          LockSound (lockStep ss system event) :=
    fun _ _ sound apart => sound.step ss apart
  exact (GuardedRun.invariant preserved (.started ns) apart).alive

/-- The file sync of one server. -/
def serverSynced : List LockEvent :=
  [.runsErrand 0 0 false, .sends 0 .filesDone, .decides 0 0,
    .runsErrand 0 0 false]

/-- The notice of a commit. -/
def noticeSent : LockEvent :=
  .sends 0
    (.writeComplete (str "notes") (str "5") (str "1") (str "5"))

/-- A commit whose notice is applied and saved before `DELETE` asks. -/
def noticeBeforeDelete : List LockEvent :=
  serverSynced ++
    [noticeSent, .decides 0 1, .runsErrand 0 1 true, .runsErrand 0 1 true,
      .lock 0, .call 0 0, .resume 0 .sent,
      .sends 0 (.answer [str "OK_DELETE"]), .decides 0 2, .resume 0 .sent,
      .returns 0, .unlock 0]

theorem not_deadlocked_noticeBeforeDelete :
    ¬(runFrom (lockStep fun _ => someStorageServer) (.started nsInit)
      noticeBeforeDelete).Deadlocked :=
  not_deadlocked_of_startsApart (fun _ => someStorageServer) nsInit
    noticeBeforeDelete (by decide +kernel)

/-- A commit whose notice is read before `DELETE` asks, and not yet applied. -/
def noticeMeetsDelete : List LockEvent :=
  serverSynced ++
    [.lock 0, noticeSent, .decides 0 1, .call 0 0, .resume 0 .sent]

/-- A commit whose notice is applied before `DELETE` asks, and not yet saved. -/
def savingMeetsDelete : List LockEvent :=
  serverSynced ++
    [noticeSent, .decides 0 1, .runsErrand 0 1 true, .lock 0, .call 0 0,
      .resume 0 .sent]

/-- `DELETE` waits for its reply, and the only reader for `state_lock`. -/
theorem deadlocked_noticeMeetsDelete :
    (runFrom (lockStep fun _ => someStorageServer) (.started nsInit)
        noticeMeetsDelete).Deadlocked ∧
      (runFrom (lockStep fun _ => someStorageServer) (.started nsInit)
        savingMeetsDelete).Deadlocked := by
  refine ⟨⟨0, 0, 0, rfl, rfl, ?_, .inl ⟨rfl, rfl⟩⟩,
    ⟨0, 0, 0, rfl, rfl, ?_, .inl ⟨rfl, rfl⟩⟩⟩
  · exact Option.some_ne_none _
  · exact Option.some_ne_none _

end DistributedDocs
