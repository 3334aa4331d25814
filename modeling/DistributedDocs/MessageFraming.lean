import DistributedDocs.WireProtocol

namespace DistributedDocs

/-!
# Framing

`protocol_receive_message` takes one byte at a time from its socket, whatever
pieces they arrive in, and stops behind a line end.  Its buffer holds one byte
less than `protocol_validate_message` lets a message have.
-/

/-- `protocol_validate_message` on a string -/
def protocolValidateMessage (message : CString) : Bool :=
  if message.length = 0 || message.getLast? ≠ some newline then false
  else if maxMessageSize < message.length then false
  else true

/-! ## Sockets -/

/-- What the next `recv` meets. -/
inductive Arrival where
  | bytes (delivered : CString)
  | interrupted
  | failed
  deriving DecidableEq

/-- What arrives on a socket until the peer closes it. -/
abbrev Socket :=
  List Arrival

/-- What a `recv` of one byte returns. -/
inductive ReceivedByte where
  | byte (c : CChar)
  | closed
  | interrupted
  | failed
  deriving DecidableEq

namespace Socket

/-- `recv` of one byte -/
def recv : Socket → ReceivedByte × Socket
  | [] =>
      (.closed, [])
  | .interrupted :: rest =>
      (.interrupted, rest)
  | .failed :: rest =>
      (.failed, rest)
  | .bytes [] :: rest =>
      recv rest
  | .bytes (c :: later) :: rest =>
      (.byte c, .bytes later :: rest)

/-- How often `recv` can still return something else than the close. -/
def pending : Socket → Nat
  | [] =>
      0
  | .bytes delivered :: rest =>
      delivered.length + pending rest
  | .interrupted :: rest | .failed :: rest =>
      pending rest + 1

theorem pending_recv
    {socket later : Socket}
    {received : ReceivedByte}
    (ended : socket.recv = (received, later))
    (notClosed : received ≠ .closed) :
    later.pending < socket.pending := by
  fun_induction recv socket with
  | case1 =>
      cases ended
      exact absurd rfl notClosed
  | case2 rest | case3 rest =>
      cases ended
      exact Nat.lt_succ_self _
  | case4 rest inductionHypothesis =>
      simpa [pending] using inductionHypothesis ended
  | case5 c front rest =>
      cases ended
      simp only [pending, List.length_cons]
      omega

/-- The loop of `protocol_receive_message`, with what it has received. -/
def receiveLoop (buffer : CString) (socket : Socket) :
    Option CString × Socket :=
  if buffer.length < maxMessageSize - 1 then
    match _received : socket.recv with
    | (.interrupted, later) => receiveLoop buffer later
    | (.failed, later) => (none, later)
    | (.closed, later) =>
        if buffer = [] then (none, later) else (some buffer, later)
    | (.byte c, later) =>
        if c = newline then (some (buffer ++ [c]), later)
        else receiveLoop (buffer ++ [c]) later
  else
    -- the size limit is reached without a terminator
    (none, socket)
termination_by socket.pending
decreasing_by
  · exact pending_recv _received nofun
  · exact pending_recv _received nofun

/-- `protocol_receive_message`: the message, or none where it returns NULL. -/
def protocolReceiveMessage (socket : Socket) : Option CString × Socket :=
  receiveLoop [] socket

/-- What successive calls return. -/
def receiveCalls : Nat → Socket → List (Option CString)
  | 0, _ =>
      []
  | count + 1, socket =>
      let (message, later) := socket.protocolReceiveMessage
      message :: receiveCalls count later

/-! ## The stream of a socket -/

/-- The bytes the peer has sent when it closes. -/
def stream (socket : Socket) : CString :=
  socket.flatMap fun arrival =>
    match arrival with
    | .bytes delivered => delivered
    | .interrupted | .failed => []

/-- No `recv` fails but for interruptions. -/
def Unbroken (socket : Socket) : Prop :=
  Arrival.failed ∉ socket

instance (socket : Socket) : Decidable socket.Unbroken :=
  inferInstanceAs (Decidable (_ ∉ _))

theorem Unbroken.tail
    {arrival : Arrival}
    {rest : Socket}
    (unbroken : Unbroken (arrival :: rest)) :
    Unbroken rest :=
  fun member => unbroken (List.mem_cons_of_mem arrival member)

/-- What `recv` leaves of the stream. -/
theorem recv_spec
    {socket : Socket}
    (unbroken : socket.Unbroken) :
    match socket.recv with
    | (.byte c, later) =>
        later.Unbroken ∧ socket.stream = c :: later.stream
    | (.interrupted, later) =>
        later.Unbroken ∧ socket.stream = later.stream
    | (.closed, later) => later = [] ∧ socket.stream = []
    | (.failed, _) => False := by
  fun_induction recv socket with
  | case1 =>
      exact ⟨rfl, rfl⟩
  | case2 rest =>
      exact ⟨unbroken.tail, rfl⟩
  | case3 rest =>
      exact unbroken List.mem_cons_self
  | case4 rest inductionHypothesis =>
      exact inductionHypothesis unbroken.tail
  | case5 c later rest =>
      refine ⟨?_, rfl⟩
      intro member
      rcases List.mem_cons.mp member with isBytes | listed
      · cases isBytes
      · exact unbroken.tail listed

/--
The byte loop takes what `protocol_receive_message` takes of the stream,
however the stream is cut.
-/
theorem receiveLoop_spec
    {buffer : CString}
    {socket : Socket}
    (oneLine : newline ∉ buffer)
    (unbroken : socket.Unbroken) :
    match DistributedDocs.protocolReceiveMessage
        (buffer ++ socket.stream) with
    | none => (receiveLoop buffer socket).1 = none
    | some (message, rest) =>
        ∃ later,
          receiveLoop buffer socket = (some message, later) ∧
            later.Unbroken ∧ later.stream = rest := by
  fun_induction receiveLoop buffer socket with
  | case1 buffer socket room later received inductionHypothesis =>
      have effect := recv_spec unbroken
      rw [received] at effect
      rw [effect.2]
      exact inductionHypothesis oneLine effect.1
  | case2 buffer socket room later received =>
      have effect := recv_spec unbroken
      rw [received] at effect
      exact effect.elim
  | case3 socket later received room =>
      have effect := recv_spec unbroken
      rw [received] at effect
      rw [effect.2, List.append_nil, protocolReceiveMessage_unended oneLine,
        if_pos (Or.inr rfl)]
  | case4 buffer socket room later received nonempty =>
      have effect := recv_spec unbroken
      rw [received] at effect
      have short : ¬TooLong buffer := Nat.not_le.mpr room
      rw [effect.2, List.append_nil, protocolReceiveMessage_unended oneLine,
        if_neg (not_or.mpr ⟨short, nonempty⟩), effect.1]
      exact ⟨[], rfl, List.not_mem_nil, rfl⟩
  | case5 buffer socket room later received =>
      have effect := recv_spec unbroken
      rw [received] at effect
      have short : ¬TooLong buffer := Nat.not_le.mpr room
      rw [effect.2, protocolReceiveMessage_line oneLine, if_neg short]
      exact ⟨later, rfl, effect.1, rfl⟩
  | case6 buffer socket room c later received notEnd inductionHypothesis =>
      have effect := recv_spec unbroken
      rw [received] at effect
      have stillOneLine : newline ∉ buffer ++ [c] := by
        rw [List.mem_append, List.mem_singleton, not_or]
        exact ⟨oneLine, Ne.symm notEnd⟩
      have recursive := inductionHypothesis stillOneLine effect.1
      rwa [List.append_assoc, List.singleton_append, ← effect.2] at recursive
  | case7 buffer socket full =>
      rw [protocolReceiveMessage_full oneLine (Nat.not_lt.mp full)]

/-- A message that is validated, with its only line end behind it. -/
def Framed (message : CString) : Prop :=
  protocolValidateMessage message = true ∧ newline ∉ message.dropLast

instance (message : CString) : Decidable (Framed message) :=
  inferInstanceAs (Decidable (_ ∧ _))

theorem framed_of_line
    {line : CString}
    (oneLine : newline ∉ line)
    (fits : line.length < maxMessageSize) :
    Framed (line ++ [newline]) := by
  constructor
  · have notLonger : ¬maxMessageSize < (line ++ [newline]).length := by
      rw [List.length_append, List.length_singleton]
      omega
    rw [protocolValidateMessage, if_neg (by simp), if_neg notLonger]
  · rwa [List.dropLast_concat]

/-- The longest message there may be is one byte too long. -/
theorem Framed.exists_line
    {message : CString}
    (framed : Framed message) :
    ∃ line,
      message = line ++ [newline] ∧ newline ∉ line ∧
        (TooLong line ↔ message.length = maxMessageSize) := by
  obtain ⟨valid, oneLine⟩ := framed
  simp only [protocolValidateMessage] at valid
  split at valid
  · cases valid
  · next ended =>
    split at valid
    · cases valid
    · next fits =>
      have lastIs : message.getLast? = some newline := by
        by_contra other
        exact ended (by simp [other])
      obtain ⟨line, rfl⟩ := List.getLast?_eq_some_iff.mp lastIs
      rw [List.dropLast_concat] at oneLine
      refine ⟨line, rfl, oneLine, ?_⟩
      rw [List.length_append, List.length_singleton] at fits ⊢
      rw [TooLong]
      omega

/-- The first call on a stream that begins with a message. -/
theorem protocolReceiveMessage_framed
    {message rest : CString}
    {socket : Socket}
    (framed : Framed message)
    (unbroken : socket.Unbroken)
    (carries : socket.stream = message ++ rest) :
    if message.length = maxMessageSize then
      socket.protocolReceiveMessage.1 = none
    else
      ∃ later,
        socket.protocolReceiveMessage = (some message, later) ∧
          later.Unbroken ∧ later.stream = rest := by
  obtain ⟨line, rfl, oneLine, sizes⟩ := framed.exists_line
  have effect := receiveLoop_spec (List.not_mem_nil (a := newline)) unbroken
  rw [List.nil_append, carries, List.append_assoc, List.singleton_append,
    protocolReceiveMessage_line oneLine] at effect
  by_cases long : TooLong line
  · rw [if_pos (sizes.mp long)]
    rwa [if_pos long] at effect
  · rw [if_neg (mt sizes.mpr long)]
    rwa [if_neg long] at effect

/--
The messages arrive one by one, and then the end of the stream, unless one of
them is as long as a message may be.
-/
theorem receiveCalls_eq_iff
    {messages : List CString}
    {socket : Socket}
    (framed : ∀ message ∈ messages, Framed message)
    (unbroken : socket.Unbroken)
    (carries : socket.stream = messages.flatten) :
    receiveCalls (messages.length + 1) socket =
        messages.map some ++ [none] ↔
      ∀ message ∈ messages, message.length ≠ maxMessageSize := by
  induction messages generalizing socket with
  | nil =>
      have effect := receiveLoop_spec (List.not_mem_nil (a := newline)) unbroken
      rw [carries] at effect
      have closed : socket.protocolReceiveMessage.1 = none := effect
      simp [receiveCalls, closed]
  | cons message rest inductionHypothesis =>
      have first :=
        protocolReceiveMessage_framed (framed message List.mem_cons_self)
          unbroken carries
      rw [List.forall_mem_cons]
      by_cases longest : message.length = maxMessageSize
      · rw [if_pos longest] at first
        constructor
        · intro arrived
          have firstIs := congrArg List.head? arrived
          change some socket.protocolReceiveMessage.1 = some (some message)
            at firstIs
          rw [first] at firstIs
          cases firstIs
        · intro shorter
          exact absurd longest shorter.1
      · rw [if_neg longest] at first
        obtain ⟨later, received, laterUnbroken, left⟩ := first
        have recursive :=
          inductionHypothesis
            (fun other listed =>
              framed other (List.mem_cons_of_mem message listed))
            laterUnbroken left
        rw [List.length_cons, receiveCalls, received, List.map_cons,
          List.cons_append]
        simp only [List.cons.injEq, true_and]
        rw [recursive, and_iff_right longest]

/-- Two messages in three pieces, and an interruption. -/
theorem receiveCalls_pieces :
    receiveCalls 3
        [.bytes (str "HI"), .interrupted, .bytes (str "\nBY"),
          .bytes (str "E\n")] =
      [str "HI\n", str "BYE\n"].map some ++ [none] :=
  (@receiveCalls_eq_iff [str "HI\n", str "BYE\n"] _
    (by decide) (by decide) (by decide)).mpr (by decide)

/-- The longest message that is validated is not received. -/
theorem not_receiveCalls_longest :
    ¬∀ (messages : List CString) (socket : Socket),
      (∀ message ∈ messages, Framed message) →
        socket.Unbroken →
          socket.stream = messages.flatten →
            receiveCalls (messages.length + 1) socket =
              messages.map some ++ [none] := by
  intro delivers
  obtain ⟨line, oneLine, sizes⟩ :
      ∃ line : CString, newline ∉ line ∧ line.length = maxMessageSize - 1 := by
    refine ⟨List.replicate _ (CChar.ofChar 'a'), ?_, List.length_replicate⟩
    intro member
    exact absurd (List.eq_of_mem_replicate member) (by decide)
  have framed : Framed (line ++ [newline]) :=
    framed_of_line oneLine (by rw [sizes]; decide)
  have carries :
      stream [.bytes (line ++ [newline])] = line ++ [newline] ++ [] :=
    rfl
  have unbroken : Unbroken [.bytes (line ++ [newline])] := by
    intro member
    cases List.mem_singleton.mp member
  have first := protocolReceiveMessage_framed framed unbroken carries
  rw [if_pos (by rw [List.length_append, sizes]; decide)] at first
  have arrived :=
    delivers [line ++ [newline]] [.bytes (line ++ [newline])]
      (by simpa using framed) unbroken carries
  have firstIs := congrArg List.head? arrived
  change some (protocolReceiveMessage _).1 = some (some (line ++ [newline]))
    at firstIs
  rw [first] at firstIs
  cases firstIs

end Socket

end DistributedDocs
