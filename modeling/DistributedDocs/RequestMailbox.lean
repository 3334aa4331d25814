import DistributedDocs.NameServerCoherence

namespace DistributedDocs

/-!
# The mailbox of access requests

Every command keeps the requests there are, each at its place: a request may
be decided, and only `REQUESTACCESS` adds one.  Places are never given back,
so the mailbox can be full although nothing in it is pending.
-/

/-- A request of this number has been approved, rejected or cancelled. -/
def DecidedRequest (id : Int) (ns : NameServer) : Prop :=
  ∃ req ∈ ns.accessRequests, req.id = id ∧ req.isPending = false

/-- A request of this number is waiting for its owner. -/
def PendingRequest (id : Int) (ns : NameServer) : Prop :=
  ∃ req ∈ ns.accessRequests, req.id = id ∧ req.isPending = true

/-- The refusal of a `REQUESTACCESS` for which there is no place. -/
def queueFull : Refusal :=
  ⟨errInternalError, str "Request queue is full."⟩

/-- Whether `REQUESTACCESS` gets as far as asking for a place. -/
def asksForPlace (msg : List CString) (ns : NameServer) : Bool :=
  match msg with
  | _ :: filename :: perm :: _ =>
      validateFilename filename && (parsePermissionFlags perm).isSome &&
        (plainScan ns.files filename).isSome
  | _ => false

/-- All places are taken, and some request that takes one is decided. -/
def clogged (ns : NameServer) : Bool :=
  nsMaxAccessRequests ≤ ns.accessRequests.length &&
    ns.accessRequests.any fun req => !req.isPending

/-! ## What a command does to the mailbox -/

/-- The same requests, of which more may be decided. -/
structure MailboxKept (before after : NameServer) : Prop where
  next_eq : after.nextRequestId = before.nextRequestId
  ids_eq :
    after.accessRequests.map AccessRequest.id =
      before.accessRequests.map AccessRequest.id
  decided : ∀ id, DecidedRequest id before → DecidedRequest id after

namespace MailboxKept

variable {first second third : NameServer}

theorem of_same
    (requests : second.accessRequests = first.accessRequests)
    (next : second.nextRequestId = first.nextRequestId) :
    MailboxKept first second where
  next_eq := next
  ids_eq := by rw [requests]
  decided id isDecided := by
    rw [DecidedRequest, requests]
    exact isDecided

theorem refl (ns : NameServer) : MailboxKept ns ns :=
  of_same rfl rfl

theorem trans
    (earlier : MailboxKept first second)
    (later : MailboxKept second third) :
    MailboxKept first third where
  next_eq := later.next_eq.trans earlier.next_eq
  ids_eq := later.ids_eq.trans earlier.ids_eq
  decided id isDecided := later.decided id (earlier.decided id isDecided)

theorem of_onlyCache
    (only : OnlyCacheChanged first second) :
    MailboxKept first second := by
  unfold OnlyCacheChanged at only
  rw [only]
  exact of_same rfl rfl

theorem select (ns : NameServer) :
    MailboxKept ns (nsSelectStorageServerBalanced ns).2 := by
  unfold nsSelectStorageServerBalanced
  simp only
  split <;> exact of_same rfl rfl

theorem registerFile
    (filename : CString)
    (file : FileMetadata)
    (ns : NameServer) :
    MailboxKept ns (registerFile filename file ns) := by
  refine trans ?_ (of_onlyCache (onlyCacheChanged_fileCacheStore _ _ _))
  exact of_same rfl rfl

theorem remove
    (filename : CString)
    (ns : NameServer) :
    MailboxKept ns (removeFileMetadataLocked filename ns).2 := by
  unfold removeFileMetadataLocked
  split
  · exact refl ns
  · simp only
    split <;> exact of_same rfl rfl

/-- A request is changed at its place. -/
theorem changeRequest
    (position : Nat)
    (change : AccessRequest → AccessRequest)
    {ns : NameServer}
    (sameId : ∀ req, (change req).id = req.id)
    (stays :
      ∀ req, ns.accessRequests[position]? = some req →
        req.isPending = false → (change req).isPending = false) :
    MailboxKept ns (changeRequest position change ns) where
  next_eq := rfl
  ids_eq := by
    refine List.ext_getElem? fun place => ?_
    simp only [DistributedDocs.changeRequest, List.getElem?_map,
      List.getElem?_modify]
    cases ns.accessRequests[place]? with
    | none =>
        rfl
    | some req =>
        by_cases here : position = place
        · simp [here, sameId]
        · simp [here]
  decided id isDecided := by
    obtain ⟨req, member, numbered, notPending⟩ := isDecided
    obtain ⟨place, held⟩ := List.getElem?_of_mem member
    have changed :
        (ns.accessRequests.modify position change)[place]? =
          some (if position = place then change req else req) := by
      rw [List.getElem?_modify, held]
      by_cases here : position = place
      · simp [here]
      · simp [here]
    refine ⟨_, List.mem_of_getElem? changed, ?_⟩
    by_cases here : position = place
    · rw [if_pos here]
      exact ⟨(sameId req).trans numbered, stays req (here ▸ held) notPending⟩
    · rw [if_neg here]
      exact ⟨numbered, notPending⟩

theorem cancel
    (path : CString)
    (ns : NameServer) :
    MailboxKept ns
      { ns with
        accessRequests := cancelRequests path ns.accessRequests } where
  next_eq := rfl
  ids_eq := by
    simp only [cancelRequests, List.map_map]
    refine List.map_congr_left fun req _ => ?_
    simp only [Function.comp_apply]
    split <;> rfl
  decided id isDecided := by
    obtain ⟨req, member, numbered, notPending⟩ := isDecided
    refine ⟨req, ?_, numbered, notPending⟩
    exact List.mem_map.mpr ⟨req, member, by simp [notPending]⟩

theorem applyMove
    (now : Int)
    (username : CString)
    (plan : List MovePlanEntry)
    (ns : NameServer) :
    MailboxKept ns (applyMove now username plan ns) := by
  obtain ⟨_, _, _, _, moved⟩ := applyMove_frame plan ns
  rw [moved]
  exact of_same rfl rfl

theorem applyDelete
    (plan : List DeletePlanEntry)
    (ns : NameServer) :
    MailboxKept ns (plan.foldl applyDeleteEntry ns) := by
  induction plan generalizing ns with
  | nil =>
      exact refl ns
  | cons entry rest inductionHypothesis =>
      have removed := remove entry.path ns
      have step : MailboxKept ns (applyDeleteEntry ns entry) := by
        unfold applyDeleteEntry
        generalize removeFileMetadataLocked entry.path ns = pair at removed
        obtain ⟨found, left⟩ := pair
        cases found with
        | false =>
            exact removed
        | true =>
            cases entry.ss with
            | none => exact removed.trans (cancel entry.path left)
            | some address =>
                exact (removed.trans (cancel entry.path left)).trans
                  (of_same rfl rfl)
      exact step.trans (inductionHypothesis _)

end MailboxKept

section Commands

variable
  {World : Type}
  {backend : Backend World}
  {now : Int}
  {username : CString}
  {start final : NsState World}

theorem MailboxKept.asked
    {α : Type}
    {program : NsHandler World α}
    {asking answered : NsState World}
    {outcome : α}
    {before : NameServer}
    (kept : MailboxKept before asking.ns)
    (onlyAsks : OnlyAsks program)
    (ran : program asking = .ok outcome answered) :
    MailboxKept before answered.ns := by
  rw [onlyAsks.ns_eq ran]
  exact kept

theorem MailboxKept.registered
    (filename : CString)
    (target : StorageServerInfo)
    {looked : NsState World}
    (known : Looked start looked) :
    MailboxKept start.ns
      (DistributedDocs.registered now username filename target looked).ns :=
  ((MailboxKept.of_onlyCache known.onlyCache).trans (.select looked.ns)).trans
    (.registerFile _ _ _)

theorem MailboxKept.granted
    (index position : Nat)
    (req : AccessRequest)
    {looked : NsState World}
    (known : Looked start looked) :
    MailboxKept start.ns
      (DistributedDocs.granted index position req looked).ns := by
  have changed :
      MailboxKept looked.ns
        (DistributedDocs.changeRequest position
          (fun entry => { entry with isPending := false }) looked.ns) :=
    .changeRequest _ _ (fun _ => rfl) fun _ _ _ => rfl
  exact ((MailboxKept.of_onlyCache known.onlyCache).trans changed).trans
    (.of_same rfl rfl)

/-- A request is taken back as it was before its approval. -/
theorem MailboxKept.ungranted
    {index position : Nat}
    {req : AccessRequest}
    {looked answered : NsState World}
    (known : Looked start looked)
    (request : start.ns.accessRequests[position]? = some req)
    (isPending : req.isPending = true)
    (same :
      answered.ns = (DistributedDocs.granted index position req looked).ns) :
    MailboxKept start.ns
      (DistributedDocs.ungranted index position req answered).ns := by
  have only := MailboxKept.of_onlyCache known.onlyCache
  have only' := known.onlyCache
  have sameRequests :
      looked.ns.accessRequests = start.ns.accessRequests := by
    unfold OnlyCacheChanged at only'
    rw [only']
  have restored :
      MailboxKept looked.ns
        (DistributedDocs.changeRequest position
          (fun entry => { entry with isPending := true }) looked.ns) := by
    refine .changeRequest _ _ (fun _ => rfl) fun other held notPending => ?_
    rw [sameRequests, request] at held
    obtain rfl := Option.some.inj held
    rw [isPending] at notPending
    cases notPending
  refine (only.trans restored).trans (.of_same ?_ ?_)
  · simp only [DistributedDocs.ungranted, NsState.onRegistry, same,
      DistributedDocs.granted, DistributedDocs.changeRequest, changeFile,
      List.modify_modify_eq]
    rfl
  · simp only [DistributedDocs.ungranted, NsState.onRegistry, same,
      DistributedDocs.granted, DistributedDocs.changeRequest, changeFile]

/-- All commands but one keep the mailbox. -/
theorem mailboxKept_of_effect
    {command : NsCommand}
    (effect : CommandEffect backend now username start command final)
    (notRequest : ∀ msg, command ≠ .requestAccess msg) :
    MailboxKept start.ns final.ns := by
  cases effect with
  | looked known =>
      exact .of_onlyCache known.onlyCache
  | unplaced known =>
      exact (MailboxKept.of_onlyCache known.onlyCache).trans (.select _)
  | createRefused known valid room fresh selected asked =>
      exact ((MailboxKept.registered _ _ known).asked
        (onlyAsks_createOnStorage _ _) asked).trans (.remove _ _)
  | created known valid room fresh selected asked =>
      exact ((MailboxKept.registered _ _ known).asked
        (onlyAsks_createOnStorage _ _) asked).trans (.of_same rfl rfl)
  | folder known valid room fresh =>
      exact (MailboxKept.of_onlyCache known.onlyCache).trans
        (.registerFile _ _ _)
  | moveRefused known normalized planned renames =>
      have same :=
        ns_of_staysWithin (sameRegistry_renameOnStorage [] _)
          (congrArg finalState renames)
      rw [finalState_error] at same
      rw [same]
      exact .of_onlyCache known.onlyCache
  | moved known normalized planned renames =>
      have same :=
        ns_of_staysWithin (sameRegistry_renameOnStorage [] _)
          (congrArg finalState renames)
      rw [finalState_ok] at same
      have only := MailboxKept.of_onlyCache known.onlyCache
      rw [← same] at only
      exact only.trans (.applyMove _ _ _ _)
  | deleteRefused known planned deletes =>
      have same :=
        ns_of_staysWithin (sameRegistry_deleteOnStorage _)
          (congrArg finalState deletes)
      rw [finalState_error] at same
      rw [same]
      exact .of_onlyCache known.onlyCache
  | deleted known planned deletes =>
      have same :=
        ns_of_staysWithin (sameRegistry_deleteOnStorage _)
          (congrArg finalState deletes)
      rw [finalState_ok] at same
      have only := MailboxKept.of_onlyCache known.onlyCache
      rw [← same] at only
      exact only.trans (.applyDelete _ _)
  | copyAnswered known destination home asked =>
      exact (MailboxKept.of_onlyCache known.onlyCache).asked
        (OnlyAsks.sendAndWait _ _) asked
  | copied known source destination home asked =>
      exact ((MailboxKept.of_onlyCache known.onlyCache).asked
        (OnlyAsks.sendAndWait _ _) asked).trans (.of_same rfl rfl)
  | located known entry =>
      refine (MailboxKept.of_onlyCache known.onlyCache).trans
        (.trans ?_ (.of_onlyCache (onlyCacheChanged_fileCacheStore _ _ _)))
      exact .of_same rfl rfl
  | requested known valid parsed entry =>
      exact absurd rfl (notRequest _)
  | approveRefused known request numbered isPending addressed entry asked =>
      exact .ungranted known request isPending
        ((onlyAsks_approveOnStorage _ _).ns_eq asked)
  | approved known request numbered isPending addressed entry asked =>
      exact (MailboxKept.granted _ _ _ known).asked
        (onlyAsks_approveOnStorage _ _) asked
  | rejected known =>
      exact (MailboxKept.of_onlyCache known.onlyCache).trans
        (.changeRequest _ _ (fun _ => rfl) fun _ _ _ => rfl)
  | notAdded known valid parsed entry owned other full =>
      exact (MailboxKept.of_onlyCache known.onlyCache).trans
        (.of_same rfl rfl)
  | addRefused known valid parsed entry owned other asked =>
      refine (MailboxKept.asked ?_ (onlyAsks_accessOnStorage _ _)
        asked).trans (.of_same rfl rfl)
      exact (MailboxKept.of_onlyCache known.onlyCache).trans
        (.of_same rfl rfl)
  | added known valid parsed entry owned other room asked =>
      refine MailboxKept.asked ?_ (onlyAsks_accessOnStorage _ _) asked
      exact (MailboxKept.of_onlyCache known.onlyCache).trans
        (.of_same rfl rfl)
  | removeRefused known valid entry owned listed asked =>
      refine (MailboxKept.asked ?_ (onlyAsks_accessOnStorage _ _)
        asked).trans (.of_same rfl rfl)
      exact (MailboxKept.of_onlyCache known.onlyCache).trans
        (.of_same rfl rfl)
  | removed known valid entry owned listed asked =>
      refine MailboxKept.asked ?_ (onlyAsks_accessOnStorage _ _) asked
      exact (MailboxKept.of_onlyCache known.onlyCache).trans
        (.of_same rfl rfl)

/-! ## `REQUESTACCESS` -/

/-- How `REQUESTACCESS` ends. -/
inductive RequestOutcome (start : NsState World) (msg : List CString) :
    EStateM.Result Refusal (NsState World) (List CString) → Prop where
  | filed
      {looked : NsState World}
      {req : AccessRequest}
      (known : Looked start looked)
      (asks : asksForPlace msg start.ns = true)
      (room : start.ns.accessRequests.length < nsMaxAccessRequests)
      (numbered : req.id = start.ns.nextRequestId)
      (isPending : req.isPending = true) :
      RequestOutcome start msg
        (.ok (okReply (str "Access request submitted."))
          (looked.onRegistry fun ns =>
            { ns with
              accessRequests := ns.accessRequests ++ [req]
              nextRequestId := ns.nextRequestId + 1 }))
  | full
      {looked : NsState World}
      (known : Looked start looked)
      (asks : asksForPlace msg start.ns = true)
      (noRoom : nsMaxAccessRequests ≤ start.ns.accessRequests.length) :
      RequestOutcome start msg (.error queueFull looked)
  | refused
      {looked : NsState World}
      {refusal : Refusal}
      (known : Looked start looked)
      (asksNot : asksForPlace msg start.ns = false)
      (otherwise : refusal ≠ queueFull) :
      RequestOutcome start msg (.error refusal looked)

/-- `REQUESTACCESS` files a request, finds no place, or gets not so far. -/
theorem requestOutcome
    (coherent : Coherent start.ns)
    (msg : List CString) :
    RequestOutcome start msg (handleRequestAccess username msg start) := by
  have here := Looked.refl coherent
  unfold handleRequestAccess
  split
  · next type filename perm rest =>
    cases valid : validateFilename filename with
    | false =>
        exact .refused here (by simp [asksForPlace, valid]) (by decide)
    | true =>
        simp only [nsEnsure, ↓reduceIte, bind_apply, pure_apply]
        cases parsed : parsePermissionFlags perm with
        | none =>
            exact .refused here (by simp [asksForPlace, parsed]) (by decide)
        | some grants =>
            obtain ⟨grantRead, grantWrite⟩ := grants
            obtain ⟨looked, known, lookup⟩ :=
              lookupMetadata_apply coherent filename
            simp only [bind_apply, lookup]
            cases scanned : plainScan start.ns.files filename with
            | none =>
                exact .refused known (by simp [asksForPlace, scanned])
                  (by decide)
            | some index =>
                obtain ⟨file, held, -⟩ := plainScan_some scanned
                have asks :
                    asksForPlace (type :: filename :: perm :: rest)
                      start.ns = true := by
                  simp [asksForPlace, valid, parsed, scanned]
                have sameRequests :
                    looked.ns.accessRequests = start.ns.accessRequests := by
                  have only := known.onlyCache
                  unfold OnlyCacheChanged at only
                  rw [only]
                have sameNext :
                    looked.ns.nextRequestId = start.ns.nextRequestId := by
                  have only := known.onlyCache
                  unfold OnlyCacheChanged at only
                  rw [only]
                simp only [Option.bind_some, held, Option.map_some, readNs,
                  bind_apply, get_apply, pure_apply, sameRequests]
                by_cases room :
                    start.ns.accessRequests.length < nsMaxAccessRequests
                · simp only [room, decide_true, ↓reduceIte, pure_apply,
                    changeNs, modify_apply]
                  exact .filed known asks room sameNext rfl
                · simp only [room, decide_false, Bool.false_eq_true,
                    ↓reduceIte]
                  exact .full known asks (Nat.le_of_not_lt room)
  · next malformed =>
    refine .refused here ?_ (by decide)
    unfold asksForPlace
    split
    · next type filename perm rest =>
      exact absurd rfl (malformed type filename perm rest)
    · rfl

end Commands

/-! ## Steps and runs -/

/-- The mailbox is kept, or one request is added behind the others. -/
inductive MailboxStep (before after : NameServer) : Prop where
  | kept (kept : MailboxKept before after)
  | filed
      {req : AccessRequest}
      (requests : after.accessRequests = before.accessRequests ++ [req])
      (next : after.nextRequestId = before.nextRequestId + 1)
      (room : before.accessRequests.length < nsMaxAccessRequests)
      (numbered : req.id = before.nextRequestId)

/-- The requests are numbered from one on, and there is a place for each. -/
structure Numbered (ns : NameServer) : Prop where
  ids_eq :
    ns.accessRequests.map AccessRequest.id =
      (List.range ns.accessRequests.length).map fun place : Nat =>
        (place : Int) + 1
  next_eq : ns.nextRequestId = ns.accessRequests.length + 1
  bounded : ns.accessRequests.length ≤ nsMaxAccessRequests

theorem MailboxKept.length_eq
    {before after : NameServer}
    (kept : MailboxKept before after) :
    after.accessRequests.length = before.accessRequests.length := by
  have lengths := congrArg List.length kept.ids_eq
  simpa using lengths

theorem MailboxStep.decided
    {before after : NameServer}
    (step : MailboxStep before after)
    {id : Int}
    (isDecided : DecidedRequest id before) :
    DecidedRequest id after := by
  cases step with
  | kept kept =>
      exact kept.decided id isDecided
  | filed requests next room numbered =>
      obtain ⟨req, member, same, notPending⟩ := isDecided
      refine ⟨req, ?_, same, notPending⟩
      rw [requests]
      exact List.mem_append_left _ member

theorem Numbered.step
    {before after : NameServer}
    (numbers : Numbered before)
    (step : MailboxStep before after) :
    Numbered after := by
  cases step with
  | kept kept =>
      have same := kept.length_eq
      exact
        { ids_eq := by rw [kept.ids_eq, same, numbers.ids_eq]
          next_eq := by rw [kept.next_eq, same, numbers.next_eq]
          bounded := same ▸ numbers.bounded }
  | filed requests next room numbered =>
      refine ⟨?_, ?_, ?_⟩
      · rw [requests, List.map_append, numbers.ids_eq, List.length_append,
          List.length_singleton, List.range_succ, List.map_append]
        simp [numbered, numbers.next_eq]
      · rw [next, requests, numbers.next_eq]
        simp
      · rw [requests, List.length_append, List.length_singleton]
        exact room

/-- Numbers are given once. -/
theorem Numbered.nodup
    {ns : NameServer}
    (numbers : Numbered ns) :
    (ns.accessRequests.map AccessRequest.id).Nodup := by
  rw [numbers.ids_eq]
  refine List.Nodup.map ?_ List.nodup_range
  intro first second same
  simpa using same

theorem Numbered.not_pending
    {ns : NameServer}
    (numbers : Numbered ns)
    {id : Int}
    (isDecided : DecidedRequest id ns) :
    ¬PendingRequest id ns := by
  rintro ⟨other, otherMember, otherId, isPending⟩
  obtain ⟨req, member, sameId, notPending⟩ := isDecided
  have same : req = other :=
    List.inj_on_of_nodup_map numbers.nodup member otherMember
      (sameId.trans otherId.symm)
  rw [same, isPending] at notPending
  cases notPending

/-- The number of the request a command decides, if it is accepted. -/
def NsCommand.decides : NsCommand → Option Int
  | .approveAccess (_ :: idField :: _) => some (atoi idField)
  | .rejectAccess (_ :: idField :: _) => some (atoi idField)
  | _ => none

/--
The mailbox over a whole run: numbers are distinct, an accepted approval or
rejection decides its request, what is decided is never pending again, and
room is short only if every place has a pending request.
-/
structure MailboxHolds
    {World : Type}
    (backend : Backend World)
    (start : NsState World)
    (actions : List (NsAction World)) : Prop where
  ids_apart :
    ∀ before after, actions = before ++ after →
      ((runFrom (nsStep backend) start before).ns.accessRequests.map
        AccessRequest.id).Nodup
  decides :
    ∀ before now username command after id reply final,
      actions = before ++ .command now username command :: after →
        command.decides = some id →
          command.handler backend now username
              (runFrom (nsStep backend) start before) = .ok reply final →
            DecidedRequest id final.ns
  decided_stays :
    ∀ before between after, actions = before ++ between ++ after →
      ∀ id, DecidedRequest id (runFrom (nsStep backend) start before).ns →
        ¬PendingRequest id
          (runFrom (nsStep backend) start (before ++ between)).ns
  full_of_pending :
    ∀ before now username msg after final,
      actions = before ++ .command now username (.requestAccess msg) :: after →
        handleRequestAccess username msg
            (runFrom (nsStep backend) start before) =
            .error queueFull final →
          (runFrom (nsStep backend) start before).ns.accessRequests.countP
            AccessRequest.isPending = nsMaxAccessRequests

/-- A `REQUESTACCESS` for a file does not find all places taken by requests
of which some are decided. -/
def FindsUnclogged
    {World : Type}
    (state : NsState World)
    (action : NsAction World) : Prop :=
  match action with
  | .command _ _ (.requestAccess msg) =>
      asksForPlace msg state.ns = true → clogged state.ns = false
  | _ => True

section Runs

variable
  {World : Type}
  {backend : Backend World}
  {state : NsState World}

theorem mailboxKept_applyHasFile
    {now : Int}
    {ss : StorageServerInfo}
    {msg : List CString}
    {before after : NameServer}
    (applied : applyHasFile now ss msg before = .ok after) :
    MailboxKept before after := by
  unfold applyHasFile at applied
  split at applied
  · cases applied
  · split at applied
    · cases applied
    · split at applied
      · cases applied
      · split at applied
        · cases applied
          refine MailboxKept.trans ?_
            (.of_onlyCache (onlyCacheChanged_fileCacheStore _ _ _))
          exact .of_same rfl rfl
        · split at applied
          · cases applied
          · cases applied
            exact .registerFile _ _ _

theorem mailboxKept_applyWriteComplete
    (now : Int)
    (ss : StorageServerInfo)
    (msg : List CString)
    (ns : NameServer) :
    MailboxKept ns (applyWriteComplete now ss msg ns) := by
  have counted :
      ∀ filename index change,
        MailboxKept ns
          (fileCacheStore filename index (changeFile index change ns)) := by
    intro filename index change
    refine MailboxKept.trans ?_
      (.of_onlyCache (onlyCacheChanged_fileCacheStore _ _ _))
    exact .of_same rfl rfl
  unfold applyWriteComplete
  split
  · simp only
    split
    · split
      · exact (counted _ _ _).trans (.of_same rfl rfl)
      · exact counted _ _ _
    · exact .refl ns
  · exact .refl ns

/-- One step of the name server. -/
theorem mailboxStep_nsStep
    (registry : Registry state.ns)
    (action : NsAction World) :
    MailboxStep state.ns (nsStep backend state action).ns := by
  cases action with
  | command now username command =>
      by_cases isRequest : ∃ msg, command = .requestAccess msg
      · obtain ⟨msg, rfl⟩ := isRequest
        have outcome :=
          @requestOutcome _ username state registry.coherent msg
        change
          MailboxStep state.ns
            (finalState (handleRequestAccess username msg state)).ns
        generalize handleRequestAccess username msg state = result at outcome
        cases outcome with
        | filed known asks room numbered isPending =>
            have only := known.onlyCache
            unfold OnlyCacheChanged at only
            refine .filed ?_ ?_ room numbered
            · simp only [finalState_ok, NsState.onRegistry]
              rw [only]
            · simp only [finalState_ok, NsState.onRegistry]
              rw [only]
        | full known asks noRoom =>
            exact .kept (.of_onlyCache known.onlyCache)
        | refused known asksNot otherwise =>
            exact .kept (.of_onlyCache known.onlyCache)
      · exact .kept (mailboxKept_of_effect
          (effect_of_command backend now username registry.coherent command)
          fun msg same => isRequest ⟨msg, same⟩)
  | hasFile now ss msg =>
      unfold nsStep
      simp only
      split
      · next applied =>
        exact .kept (mailboxKept_applyHasFile applied)
      · exact .kept (.refl _)
  | filesDone address =>
      exact .kept (.of_same rfl rfl)
  | writeComplete now ss msg =>
      exact .kept (mailboxKept_applyWriteComplete now ss msg _)
  | servers storageServers =>
      exact .kept (.of_same rfl rfl)
  | storage world =>
      exact .kept (.refl _)

/-- The registry and the numbers in every state of a run. -/
theorem numbered_reachable
    (world : World)
    (actions : List (NsAction World)) :
    Numbered (runFrom (nsStep backend) ⟨nsInit, world⟩ actions).ns := by
  have preserved :
      ∀ (state : NsState World) (action : NsAction World),
        Registry state.ns ∧ Numbered state.ns →
          Registry (nsStep backend state action).ns ∧
            Numbered (nsStep backend state action).ns :=
    fun _ action ⟨registry, numbers⟩ =>
      ⟨registry.nsStep action,
        numbers.step (mailboxStep_nsStep registry action)⟩
  have initially : Numbered nsInit := ⟨rfl, rfl, by decide⟩
  exact (runFrom_invariant preserved ⟨registry_nsInit, initially⟩ actions).2

/-- Decided requests stay decided in the rest of a run. -/
theorem decided_runFrom
    (registry : Registry state.ns)
    {id : Int}
    (isDecided : DecidedRequest id state.ns)
    (actions : List (NsAction World)) :
    DecidedRequest id (runFrom (nsStep backend) state actions).ns := by
  have preserved :
      ∀ (state : NsState World) (action : NsAction World),
        Registry state.ns ∧ DecidedRequest id state.ns →
          Registry (nsStep backend state action).ns ∧
            DecidedRequest id (nsStep backend state action).ns :=
    fun _ action ⟨registry, isDecided⟩ =>
      ⟨registry.nsStep action,
        (mailboxStep_nsStep registry action).decided isDecided⟩
  exact (runFrom_invariant preserved ⟨registry, isDecided⟩ actions).2

end Runs

section Decisions

variable
  {World : Type}
  {backend : Backend World}
  {now : Int}
  {username : CString}
  {start final : NsState World}
  {reply : List CString}

/-- The request at a place has just been decided. -/
theorem decided_changeRequest
    {ns : NameServer}
    {position : Nat}
    {req : AccessRequest}
    (held : ns.accessRequests[position]? = some req) :
    DecidedRequest req.id
      (changeRequest position (fun entry => { entry with isPending := false })
        ns) := by
  refine ⟨{ req with isPending := false }, ?_, rfl, rfl⟩
  refine List.mem_of_getElem? (i := position) ?_
  rw [changeRequest, List.getElem?_modify, held]
  simp

theorem decided_of_rejected
    {type idField : CString}
    {rest : List CString}
    (accepted :
      handleRejectAccess username (type :: idField :: rest) start =
        .ok reply final) :
    DecidedRequest (atoi idField) final.ns := by
  simp only [handleRejectAccess, readNs, bind_apply, get_apply, pure_apply]
    at accepted
  cases found :
      start.ns.accessRequests.findIdx? fun req =>
        (req.id = atoi idField && req.isPending) &&
          req.toUser = username with
  | none =>
      simp [found, nsRefuse] at accepted
  | some position =>
      obtain ⟨bound, matched, -⟩ := List.findIdx?_eq_some_iff_getElem.mp found
      simp only [Bool.and_eq_true, decide_eq_true_eq] at matched
      simp only [found, changeNs, bind_apply, modify_apply, pure_apply,
        EStateM.Result.ok.injEq] at accepted
      rw [← accepted.2, ← matched.1.1]
      exact decided_changeRequest (List.getElem?_eq_getElem bound)

theorem decided_of_approved
    (coherent : Coherent start.ns)
    {type idField : CString}
    {rest : List CString}
    (accepted :
      handleApproveAccess backend username (type :: idField :: rest) start =
        .ok reply final) :
    DecidedRequest (atoi idField) final.ns := by
  simp only [handleApproveAccess, readNs, bind_apply, get_apply, pure_apply]
    at accepted
  cases found :
      start.ns.accessRequests.findIdx? fun req =>
        req.id = atoi idField with
  | none =>
      simp [found, nsRefuse] at accepted
  | some position =>
      obtain ⟨bound, matched, -⟩ := List.findIdx?_eq_some_iff_getElem.mp found
      have held := List.getElem?_eq_getElem bound
      generalize start.ns.accessRequests[position] = req at matched held
      simp only [found, Option.bind_some, held, Option.map_some] at accepted
      cases allowed : req.isPending && decide (req.toUser = username) with
      | false =>
          simp [nsEnsure, nsRefuse, allowed] at accepted
      | true =>
          obtain ⟨looked, known, lookup⟩ :=
            lookupMetadata_apply coherent req.filename
          simp only [nsEnsure, allowed, ↓reduceIte, bind_apply, pure_apply,
            lookup] at accepted
          cases scanned : plainScan start.ns.files req.filename with
          | none =>
              simp [scanned, nsRefuse] at accepted
          | some index =>
              obtain ⟨file, fileHeld, -⟩ := plainScan_some scanned
              simp only [scanned, Option.bind_some, fileHeld,
                Option.map_some, changeNs, bind_apply, modify_apply]
                at accepted
              generalize asked :
                approveOnStorage backend file req _ = result at accepted
              cases result with
              | error refusal answered =>
                  simp at accepted
              | ok outcome answered =>
                  cases outcome with
                  | some refusal =>
                      simp at accepted
                  | none =>
                      simp only [pure_apply, EStateM.Result.ok.injEq]
                        at accepted
                      have same :=
                        (onlyAsks_approveOnStorage file req).ns_eq asked
                      have only := known.onlyCache
                      unfold OnlyCacheChanged at only
                      rw [← accepted.2, same, ← of_decide_eq_true matched]
                      refine decided_changeRequest ?_
                      rw [only]
                      exact held

/-- An accepted approval or rejection decides its request. -/
theorem decided_of_accepted
    (coherent : Coherent start.ns)
    {command : NsCommand}
    {id : Int}
    (decides : command.decides = some id)
    (accepted :
      command.handler backend now username start = .ok reply final) :
    DecidedRequest id final.ns := by
  unfold NsCommand.decides at decides
  split at decides
  · next type idField rest =>
    cases decides
    change
      handleApproveAccess backend username (type :: idField :: rest) start = _
      at accepted
    exact decided_of_approved coherent accepted
  · next type idField rest =>
    cases decides
    change handleRejectAccess username (type :: idField :: rest) start = _
      at accepted
    exact decided_of_rejected accepted
  · cases decides

/-- Exactly the requests for a file are refused when the mailbox is full. -/
theorem queueFull_iff
    (coherent : Coherent start.ns)
    (msg : List CString) :
    (∃ after, handleRequestAccess username msg start = .error queueFull after) ↔
      asksForPlace msg start.ns = true ∧
        nsMaxAccessRequests ≤ start.ns.accessRequests.length := by
  have outcome := @requestOutcome _ username start coherent msg
  generalize handleRequestAccess username msg start = result at outcome
  cases outcome with
  | filed known asks room numbered isPending =>
      constructor
      · rintro ⟨after, refused⟩
        cases refused
      · rintro ⟨-, noRoom⟩
        exact absurd room (Nat.not_lt.mpr noRoom)
  | full known asks noRoom =>
      exact ⟨fun _ => ⟨asks, noRoom⟩, fun _ => ⟨_, rfl⟩⟩
  | refused known asksNot otherwise =>
      constructor
      · rintro ⟨after, refused⟩
        cases refused
        exact absurd rfl otherwise
      · rintro ⟨asks, -⟩
        rw [asksNot] at asks
        cases asks

end Decisions

theorem countP_pending_of_not_clogged
    {ns : NameServer}
    (noRoom : nsMaxAccessRequests ≤ ns.accessRequests.length)
    (unclogged : clogged ns = false) :
    ns.accessRequests.countP AccessRequest.isPending =
      ns.accessRequests.length := by
  rw [clogged, Bool.and_eq_false_iff] at unclogged
  have allPending := unclogged.resolve_left (by simpa using noRoom)
  rw [List.countP_eq_length]
  intro req member
  simpa using List.any_eq_false.mp allPending req member

theorem countP_pending_lt_of_clogged
    {ns : NameServer}
    (isClogged : clogged ns = true) :
    ns.accessRequests.countP AccessRequest.isPending <
      ns.accessRequests.length := by
  rw [clogged, Bool.and_eq_true, List.any_eq_true] at isClogged
  obtain ⟨-, req, member, notPending⟩ := isClogged
  refine Nat.lt_of_le_of_ne List.countP_le_length fun all => ?_
  rw [List.countP_eq_length] at all
  rw [all req member] at notPending
  cases notPending

/--
The mailbox does what it is for in exactly the runs in which no
`REQUESTACCESS` for a file finds all places taken and some of them decided.
-/
theorem mailboxHolds_iff
    {World : Type}
    (backend : Backend World)
    (world : World)
    (actions : List (NsAction World)) :
    MailboxHolds backend ⟨nsInit, world⟩ actions ↔
      GuardedRun (nsStep backend) FindsUnclogged ⟨nsInit, world⟩ actions := by
  have registry := registry_reachable backend world
  have numbers := @numbered_reachable _ backend world
  constructor
  · intro holds
    by_contra unguarded
    obtain ⟨before, action, after, rfl, -, violated⟩ :=
      GuardedRun.exists_of_not unguarded
    unfold FindsUnclogged at violated
    split at violated
    · next now username msg =>
      obtain ⟨asks, isClogged⟩ := Classical.not_imp.mp violated
      rw [Bool.not_eq_false] at isClogged
      have isFull := isClogged
      rw [clogged, Bool.and_eq_true, decide_eq_true_eq] at isFull
      obtain ⟨final, refused⟩ :=
        (@queueFull_iff _ username _ (registry before).coherent msg).mpr
          ⟨asks, isFull.1⟩
      have pending :=
        holds.full_of_pending before now username msg after final rfl refused
      have fewer := countP_pending_lt_of_clogged isClogged
      have bounded := (numbers before).bounded
      omega
    · exact violated trivial
  · intro guarded
    refine ⟨?_, ?_, ?_, ?_⟩
    · intro before after _
      exact (numbers before).nodup
    · intro before now username command after id reply final _ decides
        accepted
      exact decided_of_accepted (registry before).coherent decides accepted
    · intro before between after _ id isDecided
      have later :=
        @decided_runFrom _ backend _ (registry before) _ isDecided between
      rw [← runFrom_append] at later
      exact (numbers (before ++ between)).not_pending later
    · rintro before now username msg after final rfl refused
      obtain ⟨asks, noRoom⟩ :=
        (queueFull_iff (registry before).coherent msg).mp ⟨final, refused⟩
      rw [GuardedRun.append_iff] at guarded
      have unclogged : clogged _ = false := guarded.2.1 asks
      have pending := countP_pending_of_not_clogged noRoom unclogged
      have bounded := (numbers before).bounded
      omega

/-! ## A clogged mailbox -/

/-- A file of `ada`; the first request for it is rejected. -/
def firstRejected : List (NsAction Unit) :=
  [.servers [someStorageServer],
    .command 1 (str "ada") (.create [str "CREATE", str "plan"]),
    .command 2 (str "eve")
      (.requestAccess [str "REQUESTACCESS", str "plan", str "R"]),
    .command 3 (str "ada") (.rejectAccess [str "REJECTACCESS", str "1"])]

/-- One more request for it. -/
def askAgain : NsAction Unit :=
  .command 4 (str "eve")
    (.requestAccess [str "REQUESTACCESS", str "plan", str "R"])

/-- Requests take one place each as long as there is one. -/
theorem asked_again
    (state : NsState Unit)
    (registry : Registry state.ns)
    (asks :
      asksForPlace [str "REQUESTACCESS", str "plan", str "R"] state.ns = true)
    (count : Nat)
    (room :
      state.ns.accessRequests.length + count ≤ nsMaxAccessRequests) :
    (runFrom (nsStep acceptingStorage) state
          (List.replicate count askAgain)).ns.accessRequests.length =
        state.ns.accessRequests.length + count ∧
      asksForPlace [str "REQUESTACCESS", str "plan", str "R"]
        (runFrom (nsStep acceptingStorage) state
          (List.replicate count askAgain)).ns = true := by
  induction count generalizing state with
  | zero =>
      exact ⟨rfl, asks⟩
  | succ count inductionHypothesis =>
      have outcome :=
        @requestOutcome _ (str "eve") state registry.coherent
          [str "REQUESTACCESS", str "plan", str "R"]
      have next :
          (nsStep acceptingStorage state askAgain).ns.accessRequests.length =
              state.ns.accessRequests.length + 1 ∧
            (nsStep acceptingStorage state askAgain).ns.files =
              state.ns.files := by
        change
          (finalState (handleRequestAccess (str "eve")
              [str "REQUESTACCESS", str "plan", str "R"]
              state)).ns.accessRequests.length = _ ∧
            (finalState (handleRequestAccess (str "eve")
              [str "REQUESTACCESS", str "plan", str "R"] state)).ns.files = _
        generalize handleRequestAccess (str "eve")
          [str "REQUESTACCESS", str "plan", str "R"] state = result at outcome
        cases outcome with
        | filed known _ _ numbered isPending =>
            have only := known.onlyCache
            unfold OnlyCacheChanged at only
            simp only [finalState_ok, NsState.onRegistry]
            rw [only]
            exact ⟨by simp, rfl⟩
        | full known _ noRoom =>
            omega
        | refused known asksNot otherwise =>
            rw [asksNot] at asks
            cases asks
      have asksNext :
          asksForPlace [str "REQUESTACCESS", str "plan", str "R"]
            (nsStep acceptingStorage state askAgain).ns = true := by
        rw [asksForPlace, next.2]
        exact asks
      obtain ⟨length_eq, asksLater⟩ :=
        inductionHypothesis (nsStep acceptingStorage state askAgain)
          (registry.nsStep askAgain) asksNext (by omega)
      refine ⟨?_, asksLater⟩
      rw [List.replicate_succ, runFrom_cons, length_eq, next.1]
      omega

/-- With one request rejected and 1023 pending, the next one is refused. -/
theorem mailbox_clogged_oneRejected :
    ¬∀ actions : List (NsAction Unit),
      MailboxHolds acceptingStorage ⟨nsInit, ()⟩ actions := by
  intro always
  have holds :=
    (mailboxHolds_iff acceptingStorage () _).mp
      (always (firstRejected ++ List.replicate 1023 askAgain ++ [askAgain]))
  have registry := registry_reachable acceptingStorage () firstRejected
  have isDecided :
      DecidedRequest 1
        (runFrom (nsStep acceptingStorage) ⟨nsInit, ()⟩ firstRejected).ns := by
    unfold DecidedRequest
    decide +kernel
  have stays :=
    @decided_runFrom _ acceptingStorage _ registry _ isDecided
      (List.replicate 1023 askAgain)
  obtain ⟨length_eq, asks⟩ :=
    asked_again _ registry (by decide +kernel) 1023 (by decide +kernel)
  have one :
      (runFrom (nsStep acceptingStorage) ⟨nsInit, ()⟩
        firstRejected).ns.accessRequests.length = 1 := by
    decide +kernel
  rw [one] at length_eq
  rw [GuardedRun.append_iff, runFrom_append] at holds
  have unclogged : clogged _ = false := holds.2.1 asks
  have pending :=
    countP_pending_of_not_clogged (by rw [length_eq]; decide) unclogged
  obtain ⟨req, member, -, notPending⟩ := stays
  rw [List.countP_eq_length] at pending
  rw [pending req member] at notPending
  cases notPending

end DistributedDocs
