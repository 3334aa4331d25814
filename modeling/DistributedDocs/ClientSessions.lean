import DistributedDocs.GuardedRun
import DistributedDocs.NameServer

namespace DistributedDocs

/-!
# Client sessions

`connection_thread` registers a client under the name it gives, runs its
commands and marks the entry of that name as disconnected at the end.  Entries
are kept and taken up again by a later login.
-/

/-- `ClientInfo`, less the address, which nothing reads. -/
structure ClientInfo where
  username : CString
  sockfd : Int
  isConnected : Bool
  deriving DecidableEq

/-- Where the thread of a connection is in `connection_thread`. -/
inductive ConnectionPhase where
  | handshake
  | commands
  | ending
  | closed
  deriving DecidableEq

/-- `ConnectionContext`, as far as clients use it. -/
structure ConnectionContext where
  connFd : Int
  isClient : Bool
  username : CString
  phase : ConnectionPhase
  deriving DecidableEq

/-- The entries of clients, and every connection that was ever accepted. -/
structure ClientTable where
  clients : List ClientInfo
  connections : List ConnectionContext
  deriving DecidableEq

/-- Nobody has ever connected. -/
def ClientTable.empty : ClientTable :=
  ⟨[], []⟩

/-- `ns_register_client`; none where it returns -1. -/
def nsRegisterClient
    (username : CString)
    (sockfd : Int)
    (clients : List ClientInfo) : Option (List ClientInfo) :=
  match clients.findIdx? fun client => client.username = username with
  | some existingIndex =>
      if clients[existingIndex]?.any ClientInfo.isConnected then
        none
      else
        some
          (clients.modify existingIndex fun client =>
            { client with sockfd := sockfd, isConnected := true })
  | none =>
      if nsMaxClients ≤ clients.length then
        none
      else
        some
          (clients ++
            [{ username := safeStrcpy username maxUsernameLength
               sockfd := sockfd
               isConnected := true }])

/-- The loop over `clients[]` at the end of `connection_thread`. -/
def disconnectClient
    (username : CString)
    (clients : List ClientInfo) : List ClientInfo :=
  match clients.findIdx? fun client => client.username = username with
  | some index =>
      clients.modify index fun client =>
        { client with isConnected := false, sockfd := -1 }
  | none => clients

namespace ClientTable

/-- The thread of a connection goes on. -/
def setConnection
    (id : Nat)
    (conn : ConnectionContext)
    (table : ClientTable) : ClientTable :=
  { table with connections := table.connections.set id conn }

/-- `HELLO_CLIENT`, with the registration under the lock. -/
def hello
    (id : Nat)
    (conn : ConnectionContext)
    (msg : List CString)
    (table : ClientTable) : ClientTable :=
  let refused := table.setConnection id { conn with phase := .ending }
  match msg with
  | _ :: username :: _ =>
      if validateUsername username then
        match nsRegisterClient username conn.connFd table.clients with
        | some clients =>
            { clients := clients
              connections :=
                table.connections.set id
                  { conn with
                    isClient := true
                    username := safeStrcpy username maxUsernameLength
                    phase := .commands } }
        | none => refused
      else
        refused
  | _ => refused

/-- The clean-up under the lock, and `close_connection`. -/
def cleanUp
    (id : Nat)
    (conn : ConnectionContext)
    (table : ClientTable) : ClientTable :=
  let closed := table.setConnection id { conn with phase := .closed }
  if conn.isClient && conn.username ≠ [] then
    { closed with clients := disconnectClient conn.username table.clients }
  else
    closed

end ClientTable

/-- What happens to a connection; `id` counts the accepted ones. -/
inductive ClientEvent where
  | accept (connFd : Int)
  | unreadable (id : Nat)
  | helloClient (id : Nat) (msg : List CString)
  | otherHandshake (id : Nat)
  | leave (id : Nat)
  | cleanUp (id : Nat)
  deriving DecidableEq

/-- Do what a connection does next, if it is in this phase. -/
def ClientTable.inPhase
    (table : ClientTable)
    (id : Nat)
    (phase : ConnectionPhase)
    (next : ConnectionContext → ClientTable) : ClientTable :=
  match table.connections[id]? with
  | some conn => if conn.phase = phase then next conn else table
  | none => table

/-- One event. -/
def clientStep (table : ClientTable) : ClientEvent → ClientTable
  | .accept connFd =>
      { table with
        connections :=
          table.connections ++ [⟨connFd, false, [], .handshake⟩] }
  | .unreadable id =>
      table.inPhase id .handshake fun conn =>
        table.setConnection id { conn with phase := .closed }
  | .helloClient id msg =>
      table.inPhase id .handshake fun conn => table.hello id conn msg
  | .otherHandshake id =>
      table.inPhase id .handshake fun conn =>
        table.setConnection id { conn with phase := .ending }
  | .leave id =>
      table.inPhase id .commands fun conn =>
        table.setConnection id { conn with phase := .ending }
  | .cleanUp id =>
      table.inPhase id .ending fun conn => table.cleanUp id conn

/-! ## One live session each -/

/-- The connection has logged in under the name and is not cleaned up yet. -/
def ConnectionContext.liveAs
    (username : CString)
    (conn : ConnectionContext) : Bool :=
  conn.isClient && conn.username = username &&
    (conn.phase = .commands || conn.phase = .ending)

/-- One entry a name, one live connection a name, and they agree. -/
structure OneSessionEach (table : ClientTable) : Prop where
  names_nodup : (table.clients.map ClientInfo.username).Nodup
  live_unique :
    ∀ (username : CString) (first second : Nat)
      (conn other : ConnectionContext),
      table.connections[first]? = some conn →
        table.connections[second]? = some other →
          conn.liveAs username = true → other.liveAs username = true →
            first = second
  connected_iff :
    ∀ client ∈ table.clients,
      client.isConnected = true ↔
        ∃ conn ∈ table.connections, conn.liveAs client.username = true
  live_listed :
    ∀ conn ∈ table.connections,
      ∀ username, conn.liveAs username = true →
        ∃ client ∈ table.clients,
          client.username = username ∧ client.sockfd = conn.connFd

/-- A login that is refused, and the end of its connection, change no entry. -/
structure RefusalsHarmless (table : ClientTable) : Prop where
  refused :
    ∀ id msg,
      (∀ conn,
        (clientStep table (.helloClient id msg)).connections[id]? =
            some conn →
          conn.isClient = false) →
        (clientStep table (.helloClient id msg)).clients = table.clients
  ended :
    ∀ id conn, table.connections[id]? = some conn →
      conn.isClient = false →
        (clientStep table (.cleanUp id)).clients = table.clients

/-! ## The table of clients -/

/-- Changing the item found for a key changes it wherever it is. -/
theorem modify_findIdx?_eq_map
    {Item Key : Type}
    [DecidableEq Key]
    (key : Item → Key)
    (wanted : Key)
    (change : Item → Item)
    {items : List Item}
    (keysNodup : (items.map key).Nodup)
    {index : Nat}
    (found : items.findIdx? (fun item => key item = wanted) = some index) :
    items.modify index change =
      items.map fun item => if key item = wanted then change item else item := by
  induction items generalizing index with
  | nil =>
      simp at found
  | cons head rest inductionHypothesis =>
      rw [List.map_cons, List.nodup_cons] at keysNodup
      rw [List.findIdx?_cons] at found
      by_cases here : key head = wanted
      · simp only [here, decide_true, ↓reduceIte, Option.some.injEq] at found
        subst found
        have others :
            rest.map (fun item =>
                if key item = wanted then change item else item) = rest := by
          conv_rhs => rw [← List.map_id rest]
          refine List.map_congr_left fun item member => ?_
          have different : key item ≠ wanted := fun same =>
            keysNodup.1
              (List.mem_map.mpr ⟨item, member, same.trans here.symm⟩)
          simp [different]
        simp [here, others]
      · simp only [here, decide_false, Bool.false_eq_true, ↓reduceIte,
          Option.map_eq_some_iff] at found
        obtain ⟨position, foundLater, rfl⟩ := found
        simp [here, inductionHypothesis keysNodup.2 foundLater]

/-- The entry of one name has been written, and no other. -/
structure Rewritten
    (username : CString)
    (written : ClientInfo → Prop)
    (clients after : List ClientInfo) : Prop where
  names_nodup : (after.map ClientInfo.username).Nodup
  entries :
    ∀ client ∈ after,
      (client.username = username ∧ written client) ∨
        (client.username ≠ username ∧ client ∈ clients)
  others :
    ∀ client ∈ clients, client.username ≠ username → client ∈ after

theorem Rewritten.mono
    {username : CString}
    {written weaker : ClientInfo → Prop}
    {clients after : List ClientInfo}
    (rewritten : Rewritten username written clients after)
    (weakens : ∀ client, written client → weaker client) :
    Rewritten username weaker clients after where
  names_nodup := rewritten.names_nodup
  entries client member :=
    (rewritten.entries client member).imp_left fun ⟨named, holds⟩ =>
      ⟨named, weakens client holds⟩
  others := rewritten.others

section Registration

variable
  {username : CString}
  {clients after : List ClientInfo}

/-- The entry of a name is written wherever it is. -/
theorem rewritten_map
    (namesNodup : (clients.map ClientInfo.username).Nodup)
    (change : ClientInfo → ClientInfo)
    (sameName : ∀ client, (change client).username = client.username)
    {written : ClientInfo → Prop}
    (changed : ∀ client, written (change client)) :
    Rewritten username written clients
      (clients.map fun client =>
        if client.username = username then change client else client) where
  names_nodup := by
    have sameNames :
        (clients.map fun client =>
            if client.username = username then change client
            else client).map ClientInfo.username =
          clients.map ClientInfo.username := by
      rw [List.map_map]
      refine List.map_congr_left fun client _ => ?_
      simp only [Function.comp_apply]
      split
      · exact sameName client
      · rfl
    rw [sameNames]
    exact namesNodup
  entries client member := by
    obtain ⟨earlier, listed, rfl⟩ := List.mem_map.mp member
    split
    · next named =>
      exact .inl ⟨(sameName earlier).trans named, changed earlier⟩
    · next other =>
      exact .inr ⟨other, listed⟩
  others client listed other :=
    List.mem_map.mpr ⟨client, listed, by simp [other]⟩

/-- A registration that succeeds writes the entry of a name that is away. -/
theorem rewritten_of_registered
    (namesNodup : (clients.map ClientInfo.username).Nodup)
    (short : username.length < maxUsernameLength)
    {sockfd : Int}
    (done : nsRegisterClient username sockfd clients = some after) :
    Rewritten username
        (fun client => client.isConnected = true ∧ client.sockfd = sockfd)
        clients after ∧
      (∃ client ∈ after, client.username = username) ∧
        ∀ client ∈ clients, client.username = username →
          client.isConnected = false := by
  unfold nsRegisterClient at done
  split at done
  · next index found =>
    obtain ⟨bound, named, -⟩ := List.findIdx?_eq_some_iff_getElem.mp found
    rw [List.getElem?_eq_getElem bound] at done
    have listed := List.getElem_mem bound
    split at done
    · cases done
    · next away =>
      obtain rfl := Option.some.inj done
      rw [modify_findIdx?_eq_map _ _ _ namesNodup found]
      have written :=
        @rewritten_map username clients namesNodup
          (fun client =>
            { client with sockfd := sockfd, isConnected := true })
          (fun _ => rfl)
          (fun client => client.isConnected = true ∧ client.sockfd = sockfd)
          fun _ => ⟨rfl, rfl⟩
      refine ⟨written, ⟨_, List.mem_map_of_mem listed, ?_⟩,
        fun client member same => ?_⟩
      · rw [if_pos (of_decide_eq_true named)]
        exact of_decide_eq_true named
      · have entry : client = clients[index] :=
          List.inj_on_of_nodup_map namesNodup member listed
            (same.trans (of_decide_eq_true named).symm)
        rw [entry]
        simpa using away
  · next absent =>
    have fresh : ∀ client ∈ clients, client.username ≠ username := by
      intro client member
      simpa using List.findIdx?_eq_none_iff.mp absent client member
    split at done
    · cases done
    · obtain rfl := Option.some.inj done
      have sameName := safeStrcpy_of_short short
      refine ⟨⟨?_, ?_, fun client listed _ => List.mem_append_left _ listed⟩,
        ⟨_, List.mem_append_right _ (List.mem_singleton.mpr rfl), sameName⟩,
        fun client member same => absurd same (fresh client member)⟩
      · rw [List.map_append, List.nodup_append]
        refine ⟨namesNodup, by simp, ?_⟩
        rintro name listed other isNew rfl
        obtain ⟨client, member, rfl⟩ := List.mem_map.mp listed
        simp only [List.map_cons, List.map_nil, List.mem_singleton,
          sameName] at isNew
        exact fresh client member isNew
      · intro client member
        rcases List.mem_append.mp member with old | new
        · exact .inr ⟨fresh client old, old⟩
        · obtain rfl := List.mem_singleton.mp new
          exact .inl ⟨sameName, rfl, rfl⟩

/-- The loop at the end of a connection writes the entry of its name. -/
theorem rewritten_disconnectClient
    (namesNodup : (clients.map ClientInfo.username).Nodup) :
    Rewritten username (fun client => client.isConnected = false) clients
      (disconnectClient username clients) := by
  unfold disconnectClient
  split
  · next index found =>
    rw [modify_findIdx?_eq_map _ _ _ namesNodup found]
    exact rewritten_map namesNodup
      (fun client => { client with isConnected := false, sockfd := -1 })
      (fun _ => rfl) fun _ => rfl
  · next absent =>
    refine ⟨namesNodup, fun client member => .inr ⟨?_, member⟩,
      fun client listed _ => listed⟩
    simpa using List.findIdx?_eq_none_iff.mp absent client member

end Registration

/-! ## Every event keeps the sessions apart -/

/-- What holds of entries and connections in every state. -/
structure ClientsSound (table : ClientTable) : Prop where
  sessions : OneSessionEach table
  named :
    ∀ conn ∈ table.connections,
      conn.isClient = true → conn.username ≠ []
  fresh :
    ∀ conn ∈ table.connections,
      conn.phase = .handshake → conn.isClient = false

namespace ClientsSound

variable
  {table : ClientTable}
  {id : Nat}
  {conn next : ConnectionContext}

theorem empty : ClientsSound .empty where
  sessions :=
    { names_nodup := List.nodup_nil
      live_unique := fun _ _ _ _ _ held => by simp [ClientTable.empty] at held
      connected_iff := fun _ member => by cases member
      live_listed := fun _ member => by cases member }
  named _ member := by cases member
  fresh _ member := by cases member

/-- A connection after the one with a number has been set. -/
theorem getElem?_setConnection
    (held : table.connections[id]? = some conn)
    (position : Nat) :
    (table.connections.set id next)[position]? =
      if position = id then some next else table.connections[position]? := by
  obtain ⟨bound, -⟩ := List.getElem?_eq_some_iff.mp held
  rw [List.getElem?_set]
  by_cases here : id = position
  · simp [here, here ▸ bound]
  · simp [here, Ne.symm here]

/-- A connection goes on without logging in or out. -/
theorem setConnection
    (sound : ClientsSound table)
    (held : table.connections[id]? = some conn)
    (sameFd : next.connFd = conn.connFd)
    (sameLive : ∀ username, next.liveAs username = conn.liveAs username)
    (nextNamed : next.isClient = true → next.username ≠ [])
    (begun : next.phase ≠ .handshake) :
    ClientsSound (table.setConnection id next) := by
  have lookup := @getElem?_setConnection _ _ _ next held
  have back :
      ∀ (position : Nat) (other : ConnectionContext),
        (table.connections.set id next)[position]? = some other →
          ∃ earlier : ConnectionContext,
            table.connections[position]? = some earlier ∧
              other.connFd = earlier.connFd ∧
                ∀ username, other.liveAs username = earlier.liveAs username := by
    intro position other present
    rw [lookup] at present
    split at present
    · next here =>
      cases present
      exact ⟨conn, here ▸ held, sameFd, sameLive⟩
    · exact ⟨other, present, rfl, fun _ => rfl⟩
  have forth :
      ∀ (position : Nat) (earlier : ConnectionContext),
        table.connections[position]? = some earlier →
          ∃ other : ConnectionContext,
            (table.connections.set id next)[position]? = some other ∧
              ∀ username, other.liveAs username = earlier.liveAs username := by
    intro position earlier present
    rw [lookup]
    split
    · next here =>
      rw [here, held] at present
      cases present
      exact ⟨next, rfl, sameLive⟩
    · exact ⟨earlier, present, fun _ => rfl⟩
  refine ⟨⟨sound.sessions.names_nodup, ?_, ?_, ?_⟩, ?_, ?_⟩
  · intro username first second one other oneHeld otherHeld oneLive otherLive
    obtain ⟨oneBefore, oneEarlier, -, oneSame⟩ := back first one oneHeld
    obtain ⟨otherBefore, otherEarlier, -, otherSame⟩ :=
      back second other otherHeld
    exact sound.sessions.live_unique username first second oneBefore
      otherBefore oneEarlier otherEarlier (oneSame username ▸ oneLive)
      (otherSame username ▸ otherLive)
  · intro client member
    rw [sound.sessions.connected_iff client member]
    constructor
    · rintro ⟨earlier, listed, live⟩
      obtain ⟨position, present⟩ := List.getElem?_of_mem listed
      obtain ⟨other, otherHeld, same⟩ := forth position earlier present
      exact ⟨other, List.mem_of_getElem? otherHeld, (same _).trans live⟩
    · rintro ⟨other, listed, live⟩
      obtain ⟨position, present⟩ := List.getElem?_of_mem listed
      obtain ⟨earlier, earlierHeld, -, same⟩ := back position other present
      exact ⟨earlier, List.mem_of_getElem? earlierHeld,
        (same _).symm.trans live⟩
  · intro other listed username live
    obtain ⟨position, present⟩ := List.getElem?_of_mem listed
    obtain ⟨earlier, earlierHeld, sameOtherFd, same⟩ :=
      back position other present
    rw [sameOtherFd]
    exact sound.sessions.live_listed earlier
      (List.mem_of_getElem? earlierHeld) username
      ((same username).symm.trans live)
  · intro other listed
    rcases List.mem_or_eq_of_mem_set listed with old | rfl
    · exact sound.named other old
    · exact nextNamed
  · intro other listed
    rcases List.mem_or_eq_of_mem_set listed with old | rfl
    · exact sound.fresh other old
    · exact fun isFirst => absurd isFirst begun

/-- A connection logs in or out under a name no other one is live as. -/
theorem replaced
    (sound : ClientsSound table)
    (held : table.connections[id]? = some conn)
    {username : CString}
    {after : List ClientInfo}
    (rewritten :
      Rewritten username
        (fun client =>
          client.isConnected = next.liveAs username ∧
            (next.liveAs username = true → client.sockfd = next.connFd))
        table.clients after)
    (listed :
      next.liveAs username = true →
        ∃ client ∈ after, client.username = username)
    (connOnly : ∀ name, conn.liveAs name = true → name = username)
    (nextOnly : ∀ name, next.liveAs name = true → name = username)
    (othersAway :
      ∀ position other, table.connections[position]? = some other →
        other.liveAs username = true → position = id)
    (nextNamed : next.isClient = true → next.username ≠ [])
    (begun : next.phase ≠ .handshake) :
    ClientsSound ⟨after, table.connections.set id next⟩ := by
  have lookup := @getElem?_setConnection _ _ _ next held
  have back :
      ∀ (position : Nat) (other : ConnectionContext) (name : CString),
        (table.connections.set id next)[position]? = some other →
          other.liveAs name = true →
            (position = id ∧ name = username ∧ other = next) ∨
              (name ≠ username ∧
                table.connections[position]? = some other) := by
    intro position other name present live
    rw [lookup] at present
    split at present
    · next here =>
      cases present
      exact .inl ⟨here, nextOnly name live, rfl⟩
    · next elsewhere =>
      refine .inr ⟨?_, present⟩
      rintro rfl
      exact elsewhere (othersAway position other present live)
  have forth :
      ∀ (other : ConnectionContext) (name : CString),
        other ∈ table.connections → other.liveAs name = true →
          name ≠ username → other ∈ table.connections.set id next := by
    intro other name member live different
    obtain ⟨position, present⟩ := List.getElem?_of_mem member
    refine List.mem_of_getElem? (i := position) ?_
    rw [lookup, if_neg]
    · exact present
    · rintro rfl
      rw [held] at present
      cases present
      exact different (connOnly name live)
  refine ⟨⟨rewritten.names_nodup, ?_, ?_, ?_⟩, ?_, ?_⟩
  · intro name first second one other oneHeld otherHeld oneLive otherLive
    rcases back first one name oneHeld oneLive with
      ⟨oneHere, isName, -⟩ | ⟨notName, oneBefore⟩
    · rcases back second other name otherHeld otherLive with
        ⟨otherHere, -, -⟩ | ⟨notName, -⟩
      · exact oneHere.trans otherHere.symm
      · exact absurd isName notName
    · rcases back second other name otherHeld otherLive with
        ⟨-, isName, -⟩ | ⟨-, otherBefore⟩
      · exact absurd isName notName
      · exact sound.sessions.live_unique name first second one other
          oneBefore otherBefore oneLive otherLive
  · intro client member
    rcases rewritten.entries client member with
      ⟨named, connected, -⟩ | ⟨notNamed, earlier⟩
    · rw [connected, named]
      constructor
      · intro live
        refine ⟨next, List.mem_of_getElem? (i := id) ?_, live⟩
        rw [lookup, if_pos rfl]
      · rintro ⟨other, otherMember, live⟩
        obtain ⟨position, present⟩ := List.getElem?_of_mem otherMember
        rcases back position other username present live with
          ⟨-, -, rfl⟩ | ⟨different, -⟩
        · exact live
        · exact absurd rfl different
    · rw [sound.sessions.connected_iff client earlier]
      constructor
      · rintro ⟨other, otherMember, live⟩
        exact ⟨other, forth other _ otherMember live notNamed, live⟩
      · rintro ⟨other, otherMember, live⟩
        obtain ⟨position, present⟩ := List.getElem?_of_mem otherMember
        rcases back position other _ present live with
          ⟨-, named, -⟩ | ⟨-, before⟩
        · exact absurd named notNamed
        · exact ⟨other, List.mem_of_getElem? before, live⟩
  · intro other member name live
    obtain ⟨position, present⟩ := List.getElem?_of_mem member
    rcases back position other name present live with
      ⟨-, rfl, rfl⟩ | ⟨different, before⟩
    · obtain ⟨client, clientMember, named⟩ := listed live
      rcases rewritten.entries client clientMember with
        ⟨-, -, sameFd⟩ | ⟨notNamed, -⟩
      · exact ⟨client, clientMember, named, sameFd live⟩
      · exact absurd named notNamed
    · obtain ⟨client, clientMember, named, sameFd⟩ :=
        sound.sessions.live_listed other (List.mem_of_getElem? before) name
          live
      exact ⟨client,
        rewritten.others client clientMember (named ▸ different), named,
        sameFd⟩
  · intro other member
    rcases List.mem_or_eq_of_mem_set member with old | rfl
    · exact sound.named other old
    · exact nextNamed
  · intro other listed
    rcases List.mem_or_eq_of_mem_set listed with old | rfl
    · exact sound.fresh other old
    · exact fun isFirst => absurd isFirst begun

theorem accept
    (sound : ClientsSound table)
    (connFd : Int) :
    ClientsSound (clientStep table (.accept connFd)) := by
  have notLive :
      ∀ name,
        (⟨connFd, false, [], .handshake⟩ : ConnectionContext).liveAs name =
          false :=
    fun _ => rfl
  have back :
      ∀ (position : Nat) (other : ConnectionContext) (name : CString),
        (table.connections ++ [⟨connFd, false, [], .handshake⟩])[position]? =
            some other →
          other.liveAs name = true →
            table.connections[position]? = some other := by
    intro position other name present live
    rw [List.getElem?_append] at present
    split at present
    · exact present
    · have isNew := List.mem_of_getElem? present
      rw [List.mem_singleton.mp isNew, notLive] at live
      cases live
  have backMember :
      ∀ (other : ConnectionContext) (name : CString),
        other ∈ table.connections ++ [⟨connFd, false, [], .handshake⟩] →
          other.liveAs name = true → other ∈ table.connections := by
    intro other name member live
    obtain ⟨position, present⟩ := List.getElem?_of_mem member
    exact List.mem_of_getElem? (back position other name present live)
  refine ⟨⟨sound.sessions.names_nodup, ?_, ?_, ?_⟩, ?_, ?_⟩
  · intro name first second one other oneHeld otherHeld oneLive otherLive
    exact sound.sessions.live_unique name first second one other
      (back first one name oneHeld oneLive)
      (back second other name otherHeld otherLive) oneLive otherLive
  · intro client member
    rw [sound.sessions.connected_iff client member]
    constructor
    · rintro ⟨other, listed, live⟩
      exact ⟨other, List.mem_append_left _ listed, live⟩
    · rintro ⟨other, listed, live⟩
      exact ⟨other, backMember other _ listed live, live⟩
  · intro other listed name live
    exact sound.sessions.live_listed other (backMember other name listed live)
      name live
  · intro other listed isClient
    rcases List.mem_append.mp listed with old | new
    · exact sound.named other old isClient
    · rw [List.mem_singleton.mp new] at isClient
      cases isClient
  · intro other listed isFirst
    rcases List.mem_append.mp listed with old | new
    · exact sound.fresh other old isFirst
    · rw [List.mem_singleton.mp new]

/-- A connection that has not logged in goes on. -/
theorem goesOn
    (sound : ClientsSound table)
    (held : table.connections[id]? = some conn)
    {phase : ConnectionPhase}
    (notClient : conn.isClient = false)
    (begun : phase ≠ .handshake) :
    ClientsSound (table.setConnection id { conn with phase := phase }) :=
  sound.setConnection held rfl
    (fun name => by simp [ConnectionContext.liveAs, notClient])
    (sound.named conn (List.mem_of_getElem? held)) begun

/-- The handshake of a client. -/
theorem hello
    (sound : ClientsSound table)
    (held : table.connections[id]? = some conn)
    (phase : conn.phase = .handshake)
    (msg : List CString) :
    ClientsSound (table.hello id conn msg) := by
  have notClient := sound.fresh conn (List.mem_of_getElem? held) phase
  have refused :
      ClientsSound (table.setConnection id { conn with phase := .ending }) :=
    sound.goesOn held notClient (by decide)
  unfold ClientTable.hello
  simp only
  split
  · next type username rest =>
    split
    · next valid =>
      simp only [validateUsername, Bool.and_eq_true, decide_eq_true_eq]
        at valid
      obtain ⟨⟨nonempty, short⟩, -⟩ := valid
      split
      · next clients done =>
        obtain ⟨rewritten, listed, wasAway⟩ :=
          rewritten_of_registered sound.sessions.names_nodup short done
        have sameName := safeStrcpy_of_short short
        have live :
            ∀ name,
              (⟨conn.connFd, true, safeStrcpy username maxUsernameLength,
                  .commands⟩ : ConnectionContext).liveAs name =
                decide (username = name) := by
          intro name
          simp [ConnectionContext.liveAs, sameName]
        refine sound.replaced held
          (rewritten.mono fun client written => ⟨?_, fun _ => written.2⟩)
          (fun _ => listed) ?_ ?_ ?_ ?_ (by simp)
        · rw [written.1, live, decide_eq_true rfl]
        · intro name isLive
          simp [ConnectionContext.liveAs, notClient] at isLive
        · intro name isLive
          rw [live, decide_eq_true_eq] at isLive
          exact isLive.symm
        · intro position other present isLive
          obtain ⟨client, member, named, -⟩ :=
            sound.sessions.live_listed other (List.mem_of_getElem? present)
              username isLive
          have connected :=
            (sound.sessions.connected_iff client member).mpr
              ⟨other, List.mem_of_getElem? present, named ▸ isLive⟩
          rw [wasAway client member named] at connected
          cases connected
        · intro _
          rw [sameName]
          exact nonempty
      · exact refused
    · exact refused
  · exact refused

/-- The end of a connection. -/
theorem cleanUp
    (sound : ClientsSound table)
    (held : table.connections[id]? = some conn)
    (phase : conn.phase = .ending) :
    ClientsSound (table.cleanUp id conn) := by
  have named := sound.named conn (List.mem_of_getElem? held)
  unfold ClientTable.cleanUp
  simp only
  by_cases isClient : conn.isClient = true
  · have live : conn.liveAs conn.username = true := by
      simp [ConnectionContext.liveAs, isClient, phase]
    have closed :
        ∀ name, { conn with phase := .closed }.liveAs name = false :=
      fun name => by simp [ConnectionContext.liveAs]
    have rewritten :=
      @rewritten_disconnectClient conn.username _ sound.sessions.names_nodup
    rw [if_pos (by simp [isClient, named isClient])]
    refine sound.replaced held
      (rewritten.mono fun client written => ⟨?_, fun isLive => ?_⟩)
      (fun isLive => ?_) ?_ ?_ ?_ (fun _ => named isClient) (by simp)
    · rw [written, closed]
    · rw [closed] at isLive
      cases isLive
    · rw [closed] at isLive
      cases isLive
    · intro name isLive
      simp only [ConnectionContext.liveAs, Bool.and_eq_true,
        decide_eq_true_eq] at isLive
      exact isLive.1.2.symm
    · intro name isLive
      rw [closed] at isLive
      cases isLive
    · intro position other present otherLive
      exact sound.sessions.live_unique conn.username position id other conn
        present held otherLive live
  · rw [Bool.not_eq_true] at isClient
    rw [if_neg (by simp [isClient])]
    exact sound.goesOn held isClient (by simp)

/-- Every event keeps the sessions apart. -/
theorem clientStep
    (sound : ClientsSound table)
    (event : ClientEvent) :
    ClientsSound (DistributedDocs.clientStep table event) := by
  have inPhase :
      ∀ (id : Nat) (phase : ConnectionPhase)
          (next : ConnectionContext → ClientTable),
        (∀ conn, table.connections[id]? = some conn → conn.phase = phase →
          ClientsSound (next conn)) →
          ClientsSound (table.inPhase id phase next) := by
    intro id phase next goes
    unfold ClientTable.inPhase
    split
    · next conn held =>
      split
      · next isPhase => exact goes conn held isPhase
      · exact sound
    · exact sound
  cases event with
  | accept connFd =>
      exact sound.accept connFd
  | unreadable id =>
      refine inPhase id _ _ fun conn held phase => ?_
      exact sound.goesOn held
        (sound.fresh conn (List.mem_of_getElem? held) phase) (by decide)
  | helloClient id msg =>
      exact inPhase id _ _ fun conn held phase => sound.hello held phase msg
  | otherHandshake id =>
      refine inPhase id _ _ fun conn held phase => ?_
      exact sound.goesOn held
        (sound.fresh conn (List.mem_of_getElem? held) phase) (by decide)
  | leave id =>
      refine inPhase id _ _ fun conn held phase => ?_
      exact sound.setConnection held rfl
        (fun name => by simp [ConnectionContext.liveAs, phase])
        (sound.named conn (List.mem_of_getElem? held)) (by simp)
  | cleanUp id =>
      exact inPhase id _ _ fun conn held phase => sound.cleanUp held phase

end ClientsSound

/-- A refused login and the end of its connection change no entry. -/
theorem refusalsHarmless (table : ClientTable) : RefusalsHarmless table where
  refused id msg refused := by
    simp only [clientStep, ClientTable.inPhase] at refused ⊢
    split at refused
    · next conn held =>
      have bound := (List.getElem?_eq_some_iff.mp held).1
      split at refused
      · next phase =>
        rw [if_pos phase]
        unfold ClientTable.hello at refused ⊢
        simp only at refused ⊢
        split
        · next type username rest =>
          split
          · next valid =>
            simp only [valid, ↓reduceIte] at refused
            split
            · next clients done =>
              simp [done, bound] at refused
            · rfl
          · rfl
        · rfl
      · next phase =>
        rw [if_neg phase]
    · rfl
  ended id conn held notClient := by
    simp only [clientStep, ClientTable.inPhase, held]
    split
    · simp [ClientTable.cleanUp, notClient, ClientTable.setConnection]
    · rfl

/--
In every state of every run there is one entry and at most one live connection
for a name, the entry is connected exactly while there is one, and refused
logins change no entry.
-/
theorem oneSessionEach_reachable (events : List ClientEvent) :
    OneSessionEach (runFrom clientStep .empty events) ∧
      RefusalsHarmless (runFrom clientStep .empty events) := by
  have preserved :
      ∀ (table : ClientTable) (event : ClientEvent),
        ClientsSound table → ClientsSound (clientStep table event) :=
    fun _ event sound => sound.clientStep event
  exact
    ⟨(runFrom_invariant preserved ClientsSound.empty events).sessions,
      refusalsHarmless _⟩

/-- The second login of `ada` is refused, and the third one is not. -/
example :
    (runFrom clientStep .empty
      [.accept 4, .helloClient 0 [str "HELLO_CLIENT", str "ada"], .accept 5,
        .helloClient 1 [str "HELLO_CLIENT", str "ada"], .cleanUp 1,
        .leave 0, .cleanUp 0, .accept 4,
        .helloClient 2 [str "HELLO_CLIENT", str "ada"]]).clients =
      [⟨str "ada", 4, true⟩] := by
  decide +kernel

end DistributedDocs
