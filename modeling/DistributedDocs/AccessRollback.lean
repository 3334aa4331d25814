import DistributedDocs.AccessLists
import DistributedDocs.MetadataDurability

namespace DistributedDocs

/-!
# Access changes that fail

`ADDACCESS`, `REMACCESS` and `APPROVEACCESS` change the lists first and ask the
storage server then.  What they do when it refuses is the opposite call, which
is not the inverse: a user who was on a list before is taken off it.
-/

/-- The two lists have the same users. -/
def SameListed (file later : FileMetadata) : Prop :=
  (∀ user, user ∈ later.readAccessUsers ↔ user ∈ file.readAccessUsers) ∧
    ∀ user, user ∈ later.writeAccessUsers ↔ user ∈ file.writeAccessUsers

/-- Entry by entry, the lists have the same users. -/
def ListsUnchanged (before after : NameServer) : Prop :=
  List.Forall₂ SameListed before.files after.files

/-- A command that changes the access lists of a file. -/
inductive AccessChange where
  | addAccess (msg : List CString)
  | remAccess (msg : List CString)
  | approveAccess (msg : List CString)

/-- The command of the name server. -/
def AccessChange.command : AccessChange → NsCommand
  | .addAccess msg => .addAccess msg
  | .remAccess msg => .remAccess msg
  | .approveAccess msg => .approveAccess msg

section Claim

variable {World : Type} (backend : Backend World)

/-- A program that ends with an error leaves the lists as they were. -/
def FailureKeepsLists
    {α : Type}
    (start : NsState World)
    (outcome : EStateM.Result Refusal (NsState World) α) : Prop :=
  ∀ refusal final, outcome = .error refusal final →
    ListsUnchanged start.ns final.ns

/-- A user is on neither list. -/
def unlisted (file : FileMetadata) (user : CString) : Bool :=
  !file.readAccessUsers.contains user && !file.writeAccessUsers.contains user

/-- The read list takes a new user and the write list has no room for it. -/
def fillsHalfway
    (file : FileMetadata)
    (user : CString)
    (grantWrite : Bool) : Bool :=
  (grantWrite && !canList file.writeAccessUsers user) &&
    (!file.readAccessUsers.contains user &&
      canList file.readAccessUsers user)

/-- Both lists a grant is about can take the user. -/
def hasRoomFor
    (file : FileMetadata)
    (user : CString)
    (grantWrite : Bool) : Bool :=
  canList file.readAccessUsers user &&
    (!grantWrite || canList file.writeAccessUsers user)

/--
A grant does not fill up halfway; it is not refused by the storage server when
the user was on a list before; and a revocation is not refused for a user on
the write list alone.
-/
def rollsBack
    (username : CString)
    (state : NsState World) : AccessChange → Bool
  | .addAccess (_ :: filename :: targetUser :: permission :: _) =>
      (changeableEntry username filename targetUser state.ns).all fun file =>
        (parsePermissionFlags permission).all fun (grantRead, grantWrite) =>
          strncmpEq file.owner targetUser maxUsernameLength ||
            (!fillsHalfway file targetUser grantWrite &&
              (!(hasRoomFor file targetUser grantWrite &&
                  refuses
                    (accessOnStorage backend file
                      [str "SS_ADDACCESS", filename, targetUser,
                        permToken grantRead grantWrite] state)) ||
                unlisted file targetUser))
  | .remAccess (_ :: filename :: targetUser :: _) =>
      (changeableEntry username filename targetUser state.ns).all fun file =>
        !refuses
            (accessOnStorage backend file
              [str "SS_REMACCESS", filename, targetUser] state) ||
          (!file.writeAccessUsers.contains targetUser ||
            file.readAccessUsers.contains targetUser)
  | .approveAccess (_ :: idField :: _) =>
      (requestToDecide username idField state.ns).all fun req =>
        (entryNamed req.filename state.ns).all fun file =>
          !refuses (approveOnStorage backend file req state) ||
            unlisted file req.fromUser
  | _ => true

end Claim

/-! ## Changes of one entry -/

theorem SameListed.refl (file : FileMetadata) : SameListed file file :=
  ⟨fun _ => Iff.rfl, fun _ => Iff.rfl⟩

theorem ListsUnchanged.of_files
    {before after : NameServer}
    (files : after.files = before.files) :
    ListsUnchanged before after := by
  rw [ListsUnchanged, files]
  exact List.forall₂_same.mpr fun file _ => .refl file

/-- Only the entry that changes decides. -/
theorem forall₂_modify_iff
    {α : Type*}
    {related : α → α → Prop}
    (reflexive : ∀ item, related item item)
    {items : List α}
    {index : Nat}
    {item : α}
    (held : items[index]? = some item)
    (change : α → α) :
    List.Forall₂ related items (items.modify index change) ↔
      related item (change item) := by
  induction items generalizing index with
  | nil =>
      simp at held
  | cons first rest inductionHypothesis =>
      cases index with
      | zero =>
          obtain rfl : first = item := by simpa using held
          rw [List.modify_zero_cons, List.forall₂_cons]
          exact and_iff_left
            (List.forall₂_same.mpr fun other _ => reflexive other)
      | succ index =>
          rw [List.modify_succ_cons, List.forall₂_cons,
            inductionHypothesis (by simpa using held)]
          exact and_iff_right (reflexive first)

theorem listsUnchanged_modify_iff
    {before after : NameServer}
    {index : Nat}
    {file : FileMetadata}
    {change : FileMetadata → FileMetadata}
    (held : before.files[index]? = some file)
    (files : after.files = before.files.modify index change) :
    ListsUnchanged before after ↔ SameListed file (change file) := by
  rw [ListsUnchanged, files]
  exact forall₂_modify_iff SameListed.refl held change

theorem unlisted_iff {file : FileMetadata} {user : CString} :
    unlisted file user = true ↔
      user ∉ file.readAccessUsers ∧ user ∉ file.writeAccessUsers := by
  simp [unlisted]

section Changes

variable
  {file : FileMetadata}
  {user : CString}
  (arrays : file.AclArrays)
  (short : user.length < maxUsernameLength)

include arrays short

/-- A grant succeeds exactly if both lists it is about have room. -/
theorem fileAddAccess_fst_eq
    {grantRead grantWrite : Bool}
    (some : (grantRead || grantWrite) = true) :
    (fileAddAccess file user grantRead grantWrite).1 =
      hasRoomFor file user grantWrite := by
  rw [Bool.eq_iff_iff, arrays.fileAddAccess_fst_iff short, hasRoomFor]
  cases grantWrite <;> simp_all

/-- A grant that is taken back. -/
theorem sameListed_taken_back_iff (grantRead grantWrite : Bool) :
    SameListed file
        (fileRemoveAccess (fileAddAccess file user grantRead grantWrite).2
          user).2 ↔
      unlisted file user = true := by
  have granted := arrays.mem_fileAddAccess short grantRead grantWrite
  have revoked :=
    (arrays.added short grantRead grantWrite).mem_fileRemoveAccess user
  rw [unlisted_iff]
  constructor
  · rintro ⟨readers, writers⟩
    have reading := readers user
    have writing := writers user
    rw [(revoked user).1] at reading
    rw [(revoked user).2] at writing
    exact ⟨fun member => (reading.mpr member).2 rfl,
      fun member => (writing.mpr member).2 rfl⟩
  · rintro ⟨noReader, noWriter⟩
    constructor
    · intro other
      rw [(revoked other).1, (granted other).1]
      by_cases same : other = user
      · simp [same, noReader]
      · simp [same]
    · intro other
      rw [(revoked other).2, (granted other).2]
      by_cases same : other = user
      · simp [same, noWriter]
      · simp [same]

/-- A grant that is refused because a list is full. -/
theorem sameListed_refused_grant_iff
    {grantRead grantWrite : Bool}
    (some : (grantRead || grantWrite) = true)
    (full : hasRoomFor file user grantWrite = false) :
    SameListed file (fileAddAccess file user grantRead grantWrite).2 ↔
      fillsHalfway file user grantWrite = false := by
  have granted := arrays.mem_fileAddAccess short grantRead grantWrite
  have noWriter :
      ¬(grantWrite = true ∧ canList file.readAccessUsers user = true ∧
        canList file.writeAccessUsers user = true) := by
    rintro ⟨rfl, reading, writing⟩
    simp [hasRoomFor, reading, writing] at full
  constructor
  · rintro ⟨readers, _⟩
    by_contra halfway
    simp only [fillsHalfway, Bool.not_eq_false, Bool.and_eq_true,
      Bool.not_eq_true', List.contains_eq_mem, decide_eq_false_iff_not]
      at halfway
    obtain ⟨_, absent, room⟩ := halfway
    have present := (granted user).1.mpr (.inr ⟨rfl, some, room⟩)
    exact absent ((readers user).mp present)
  · intro whole
    constructor
    · intro other
      rw [(granted other).1]
      refine ⟨?_, Or.inl⟩
      rintro (old | ⟨rfl, _, room⟩)
      · exact old
      · by_contra absent
        cases grantWrite with
        | false =>
            simp [hasRoomFor, room] at full
        | true =>
            have noRoom : canList file.writeAccessUsers other = false := by
              simpa [hasRoomFor, room] using full
            simp [fillsHalfway, noRoom, room, absent] at whole
    · intro other
      rw [(granted other).2]
      refine ⟨?_, Or.inl⟩
      rintro (old | ⟨_, impossible⟩)
      · exact old
      · exact absurd impossible noWriter

/-- A revocation that is taken back. -/
theorem sameListed_restored_iff :
    SameListed file
        (fileAddAccess (fileRemoveAccess file user).2 user
          (fileAclContains file.readAccessUsers user)
          (fileAclContains file.writeAccessUsers user)).2 ↔
      (user ∈ file.writeAccessUsers → user ∈ file.readAccessUsers) := by
  have removed := arrays.mem_fileRemoveAccess user
  have restored :=
    (arrays.removed user).mem_fileAddAccess short
      (fileAclContains file.readAccessUsers user)
      (fileAclContains file.writeAccessUsers user)
  have hadRead := arrays.readers.contains_iff user
  have hadWrite := arrays.writers.contains_iff user
  have readRoom :
      user ∈ file.readAccessUsers →
        canList (fileRemoveAccess file user).2.readAccessUsers user = true :=
    fun member => canList_iff.mpr
      (.inr (arrays.readers.length_fileAclRemove_lt member))
  have writeRoom :
      user ∈ file.writeAccessUsers →
        canList (fileRemoveAccess file user).2.writeAccessUsers user = true :=
    fun member => canList_iff.mpr
      (.inr (arrays.writers.length_fileAclRemove_lt member))
  constructor
  · -- without the read entry the grant adds one, or gives nothing back
    rintro ⟨readers, writers⟩ writer
    have back := (writers user).mpr writer
    rw [(restored user).2, (removed user).2] at back
    obtain ⟨_, impossible⟩ | ⟨_, _, room, _⟩ := back
    · exact absurd rfl impossible
    · refine (readers user).mp ((restored user).1.mpr (.inr ⟨rfl, ?_, room⟩))
      rw [hadWrite.mpr writer, Bool.or_true]
  · intro both
    constructor
    · intro other
      rw [(restored other).1, (removed other).1]
      by_cases same : other = user
      · subst same
        simp only [ne_eq, not_true_eq_false, and_false, false_or, true_and,
          Bool.or_eq_true, hadRead, hadWrite]
        exact ⟨fun ⟨either, _⟩ => either.elim id both,
          fun member => ⟨.inl member, readRoom member⟩⟩
      · simp [same]
    · intro other
      rw [(restored other).2, (removed other).2]
      by_cases same : other = user
      · subst same
        simp only [ne_eq, not_true_eq_false, and_false, false_or, true_and,
          hadWrite]
        exact ⟨fun ⟨member, _⟩ => member,
          fun member => ⟨member, readRoom (both member), writeRoom member⟩⟩
      · simp [same]

end Changes

/-! ## The commands -/

/-- A permission that is parsed grants something. -/
theorem grants_of_parsePermissionFlags
    {permission : CString}
    {grantRead grantWrite : Bool}
    (parsed :
      parsePermissionFlags permission = some (grantRead, grantWrite)) :
    (grantRead || grantWrite) = true := by
  simp only [parsePermissionFlags] at parsed
  split at parsed
  · cases parsed
    rfl
  · split at parsed
    · cases parsed
      rfl
    · split at parsed
      · cases parsed
        rfl
      · cases parsed

theorem changeableEntry_eq
    {username filename targetUser : CString}
    {ns : NameServer}
    {file : FileMetadata}
    (named : entryNamed filename ns = some file) :
    changeableEntry username filename targetUser ns =
      if ((validateFilename filename && validateUsername targetUser) &&
            username ≠ []) &&
          strncmpEq file.owner username maxUsernameLength then
        some file
      else
        none := by
  rw [changeableEntry, named, Option.filter_some]

section Handlers

variable
  {World : Type}
  {backend : Backend World}
  {username : CString}
  {start : NsState World}

/--
From a state that only lookups separate from `start`, a failure of the program
leaves the lists as they were exactly if the condition holds.
-/
def FailureKeepsIff
    {α : Type}
    (start : NsState World)
    (condition : Prop)
    (program : NsHandler World α) : Prop :=
  ∀ looked, Looked start looked →
    (FailureKeepsLists start (program looked) ↔ condition)

theorem FailureKeepsLists.of_ok
    {α : Type}
    (value : α)
    (final : NsState World) :
    FailureKeepsLists start (.ok value final) :=
  nofun

theorem failureKeepsLists_error_iff
    {α : Type}
    {refusal : Refusal}
    {final : NsState World} :
    FailureKeepsLists start
        (.error refusal final :
          EStateM.Result Refusal (NsState World) α) ↔
      ListsUnchanged start.ns final.ns :=
  ⟨fun keeps => keeps refusal final rfl, fun unchanged _ _ same => by
    cases same
    exact unchanged⟩

theorem Looked.listsUnchanged
    {state : NsState World}
    (looked : Looked start state) :
    ListsUnchanged start.ns state.ns :=
  .of_files looked.files_eq

namespace FailureKeepsIff

variable
  {α β : Type}
  {condition : Prop}

theorem refuse
    (holds : condition)
    (code : Int)
    (text : String) :
    FailureKeepsIff start condition (nsRefuse code text : NsHandler World α) :=
  fun _ known =>
    iff_of_true (failureKeepsLists_error_iff.mpr known.listsUnchanged) holds

theorem pure
    (holds : condition)
    (value : α) :
    FailureKeepsIff start condition (Pure.pure value : NsHandler World α) :=
  fun looked _ => iff_of_true (.of_ok value looked) holds

/-- A check that fails leaves the lists alone. -/
theorem ensure
    {check : Bool}
    {code : Int}
    {text : String}
    {next : Unit → NsHandler World α}
    (failing : check = false → condition)
    (passing :
      check = true → FailureKeepsIff start condition (next ())) :
    FailureKeepsIff start condition
      (nsEnsure check code text >>= next) := by
  cases holds : check with
  | false =>
      exact refuse (failing holds) code text
  | true =>
      exact passing holds

/-- First look, with a program that does not fail. -/
theorem afterLooking
    {fact : α → Prop}
    {program : NsHandler World α}
    {next : α → NsHandler World β}
    (finds : Finds start fact program)
    (returns :
      ∀ looked refusal final, program looked ≠ .error refusal final)
    (acts :
      ∀ value, fact value → FailureKeepsIff start condition (next value)) :
    FailureKeepsIff start condition (program >>= next) := by
  intro looked known
  have found := finds looked known
  rw [bind_apply]
  cases outcome : program looked with
  | ok value state =>
      rw [outcome] at found
      exact acts value found.1 state found.2
  | error refusal final =>
      exact absurd outcome (returns looked refusal final)

theorem read
    {look : NameServer → α}
    {next : α → NsHandler World β}
    (uncached :
      ∀ state, OnlyCacheChanged start.ns state → look state = look start.ns)
    (acts : FailureKeepsIff start condition (next (look start.ns))) :
    FailureKeepsIff start condition (readNs look >>= next) :=
  afterLooking (Finds.read uncached) (fun _ _ _ => nofun)
    fun _ same => same ▸ acts

theorem lookup
    {filename : CString}
    {next : Option (Nat × FileMetadata) → NsHandler World β}
    (missing :
      entryNamed filename start.ns = none →
        FailureKeepsIff start condition (next none))
    (found :
      ∀ index file, EntryAt start.ns filename index file →
        FailureKeepsIff start condition (next (some (index, file)))) :
    FailureKeepsIff start condition (lookupMetadata filename >>= next) := by
  refine afterLooking
    ((Finds.lookup_entry filename).and (Finds.lookup_absent filename))
    (fun looked refusal final failed => ?_) fun value isFound => ?_
  · simp only [lookupMetadata, onNs, readNs, bind_apply, modifyGet_apply]
      at failed
    cases found : (fileLookupLocked filename looked.ns).1 with
    | none =>
        simp only [found] at failed
        cases failed
    | some index =>
        simp only [found] at failed
        cases failed
  · obtain ⟨present, absent⟩ := isFound
    cases value with
    | none =>
        refine missing ?_
        rw [entryNamed, absent rfl]
        rfl
    | some entry =>
        exact found entry.1 entry.2
          (entryAt_of_lookup (present entry.1 entry.2 rfl))

end FailureKeepsIff

/-- What the storage server answers does not depend on the change. -/
theorem Looked.refuses_asked
    {looked : NsState World}
    {index : Nat}
    {change : FileMetadata → FileMetadata}
    {file : FileMetadata}
    {request : List CString}
    {result : EStateM.Result Refusal (NsState World) (Option Refusal)}
    (isLooked : Looked start looked)
    (asked :
      accessOnStorage backend file request
          (looked.onRegistry (changeFile index change)) =
        result) :
    refuses (accessOnStorage backend file request start) =
      refuses result := by
  have servers :
      (looked.onRegistry (changeFile index change)).ns.storageServers =
        start.ns.storageServers :=
    isLooked.storageServers
  rw [← refuses_accessOnStorage servers isLooked.sameWorld, asked]

theorem failureKeepsIff_handleAddAccess
    (arrays : ∀ file ∈ start.ns.files, file.AclArrays)
    (msg : List CString) :
    FailureKeepsIff start
      (rollsBack backend username start (.addAccess msg) = true)
      (handleAddAccess backend username msg) := by
  unfold handleAddAccess
  split
  · next type filename targetUser permission rest =>
    refine .ensure (fun invalid => ?_) fun valid => ?_
    · simp [rollsBack, changeableEntry, invalid]
    split
    · next grantRead grantWrite parsed =>
      refine .ensure (fun unknown => ?_) fun known => ?_
      · simp [rollsBack, changeableEntry, unknown]
      refine .lookup (fun missing => .refuse ?_ _ _) fun index file entry => ?_
      · simp [rollsBack, changeableEntry, missing]
      refine .ensure (fun foreign => ?_) fun owned => ?_
      · simp [rollsBack, changeableEntry, foreign, entry.entryNamed_eq]
      have changeable :
          changeableEntry username filename targetUser start.ns =
            some file := by
        rw [changeableEntry_eq entry.entryNamed_eq, valid, known, owned]
        rfl
      have short : targetUser.length < maxUsernameLength :=
        (validateUsername_iff.mp (Bool.and_eq_true_iff.mp valid).2).2.1
      have array := arrays file (List.mem_of_getElem? entry.held)
      have some := grants_of_parsePermissionFlags parsed
      split
      · next owner =>
        refine .pure ?_ _
        simp [rollsBack, changeable, parsed, owner]
      · next other =>
        simp only [Bool.not_eq_true] at other
        have condition :
            rollsBack backend username start
                (.addAccess
                  (type :: filename :: targetUser :: permission :: rest)) =
              (!fillsHalfway file targetUser grantWrite &&
                (!(hasRoomFor file targetUser grantWrite &&
                    refuses
                      (accessOnStorage backend file
                        [str "SS_ADDACCESS", filename, targetUser,
                          permToken grantRead grantWrite] start)) ||
                  unlisted file targetUser)) := by
          simp only [rollsBack, changeable, parsed, other, Option.all_some,
            Bool.false_or]
        rw [condition]
        intro looked isLooked
        simp only [bind_apply, changeNs, modify_apply]
        have fits := fileAddAccess_fst_eq array short some
        cases room : hasRoomFor file targetUser grantWrite with
        | false =>
            rw [room] at fits
            rw [fits]
            refine failureKeepsLists_error_iff.trans ?_
            rw [listsUnchanged_modify_iff entry.held
                (congrArg (List.modify · index _) isLooked.files_eq),
              sameListed_refused_grant_iff array short some room]
            simp
        | true =>
            rw [room] at fits
            rw [fits]
            simp only [nsEnsure, ↓reduceIte, pure_apply]
            have whole : fillsHalfway file targetUser grantWrite = false := by
              simp only [hasRoomFor, Bool.and_eq_true, Bool.or_eq_true,
                Bool.not_eq_true'] at room
              rcases room.2 with readOnly | writable
              · simp [fillsHalfway, readOnly]
              · simp [fillsHalfway, writable]
            rw [whole]
            generalize asked : accessOnStorage backend file _ _ = result
            have answer := isLooked.refuses_asked asked
            cases result with
            | error refusal answered =>
                exact absurd asked (onlyAsks_accessOnStorage file _).ne_error
            | ok outcome answered =>
                rw [answer]
                cases outcome with
                | none =>
                    exact iff_of_true (.of_ok _ _) (by simp [refuses])
                | some refusal =>
                    refine failureKeepsLists_error_iff.trans ?_
                    rw [listsUnchanged_modify_iff entry.held
                        ((isLooked.refusedChange asked).2 _),
                      Function.comp_apply,
                      sameListed_taken_back_iff array short]
                    simp [refuses]
    · next unparsed =>
      have noFlags : parsePermissionFlags permission = none := by
        rcases flags : parsePermissionFlags permission with
          _ | ⟨grantRead, grantWrite⟩
        · rfl
        · exact (unparsed _ _ flags).elim
      refine .refuse ?_ _ _
      simp [rollsBack, noFlags]
  · next other =>
    refine .refuse ?_ _ _
    unfold rollsBack
    split
    · next shape =>
      cases shape
      exact absurd rfl (other _ _ _ _ _)
    · next shape => cases shape
    · next shape => cases shape
    · rfl

theorem failureKeepsIff_handleRemAccess
    (arrays : ∀ file ∈ start.ns.files, file.AclArrays)
    (msg : List CString) :
    FailureKeepsIff start
      (rollsBack backend username start (.remAccess msg) = true)
      (handleRemAccess backend username msg) := by
  unfold handleRemAccess
  split
  · next type filename targetUser rest =>
    refine .ensure (fun invalid => ?_) fun valid => ?_
    · simp [rollsBack, changeableEntry, invalid]
    refine .ensure (fun unknown => ?_) fun known => ?_
    · simp [rollsBack, changeableEntry, unknown]
    refine .lookup (fun missing => .refuse ?_ _ _) fun index file entry => ?_
    · simp [rollsBack, changeableEntry, missing]
    refine .ensure (fun foreign => ?_) fun owned => ?_
    · simp [rollsBack, changeableEntry, foreign, entry.entryNamed_eq]
    have changeable :
        changeableEntry username filename targetUser start.ns = some file := by
      rw [changeableEntry_eq entry.entryNamed_eq, valid, known, owned]
      rfl
    have short : targetUser.length < maxUsernameLength :=
      (validateUsername_iff.mp (Bool.and_eq_true_iff.mp valid).2).2.1
    have array := arrays file (List.mem_of_getElem? entry.held)
    have condition :
        rollsBack backend username start
            (.remAccess (type :: filename :: targetUser :: rest)) =
          (!refuses
              (accessOnStorage backend file
                [str "SS_REMACCESS", filename, targetUser] start) ||
            (!file.writeAccessUsers.contains targetUser ||
              file.readAccessUsers.contains targetUser)) := by
      simp only [rollsBack, changeable, Option.all_some]
    rw [condition]
    refine .ensure (fun unlisted => ?_) fun listed => ?_
    · rw [Bool.eq_false_iff, ne_eq, array.fileRemoveAccess_fst_iff, not_or]
        at unlisted
      simp [unlisted.2]
    intro looked isLooked
    simp only [bind_apply, changeNs, modify_apply]
    generalize asked : accessOnStorage backend file _ _ = result
    have answer := isLooked.refuses_asked asked
    cases result with
    | error refusal answered =>
        exact absurd asked (onlyAsks_accessOnStorage file _).ne_error
    | ok outcome answered =>
        rw [answer]
        cases outcome with
        | none =>
            exact iff_of_true (.of_ok _ _) (by simp [refuses])
        | some refusal =>
            refine failureKeepsLists_error_iff.trans ?_
            rw [listsUnchanged_modify_iff entry.held
                ((isLooked.refusedChange asked).2 _),
              Function.comp_apply, sameListed_restored_iff array short]
            simp [refuses, Decidable.imp_iff_not_or]
  · next other =>
    refine .refuse ?_ _ _
    unfold rollsBack
    split
    · next shape => cases shape
    · next shape =>
      cases shape
      exact absurd rfl (other _ _ _ _)
    · next shape => cases shape
    · rfl

theorem failureKeepsIff_handleApproveAccess
    (arrays : ∀ file ∈ start.ns.files, file.AclArrays)
    (requestsShort :
      ∀ req ∈ start.ns.accessRequests, req.fromUser.length < maxUsernameLength)
    (msg : List CString) :
    FailureKeepsIff start
      (rollsBack backend username start (.approveAccess msg) = true)
      (handleApproveAccess backend username msg) := by
  unfold handleApproveAccess
  split
  · next type idField rest =>
    refine .read (fun state only => by
      unfold OnlyCacheChanged at only
      rw [only]) ?_
    have decided :
        requestToDecide username idField start.ns =
          (((start.ns.accessRequests.findIdx? fun req =>
              req.id = atoi idField).bind fun position =>
            start.ns.accessRequests[position]?.map (position, ·)).map
              Prod.snd).filter fun req =>
                req.isPending && req.toUser = username := by
      rw [requestToDecide, List.find?_eq_bind_findIdx?_getElem?]
      simp [Option.map_bind, Function.comp_def]
    generalize isRequest :
      ((start.ns.accessRequests.findIdx? fun req =>
          req.id = atoi idField).bind fun position =>
        start.ns.accessRequests[position]?.map (position, ·)) = request
      at decided ⊢
    split
    · next position req =>
      rw [Option.map_some] at decided
      have requested :
          start.ns.accessRequests[position]? = some req := by
        obtain ⟨place, _, held⟩ := Option.bind_eq_some_iff.mp isRequest
        obtain ⟨other, isOther, same⟩ := Option.map_eq_some_iff.mp held
        cases same
        exact isOther
      refine .ensure (fun refused => ?_) fun allowed => ?_
      · simp [rollsBack, decided, Option.filter_some, refused]
      rw [Option.filter_some, if_pos allowed] at decided
      refine .lookup (fun missing => .refuse ?_ _ _) fun index file entry => ?_
      · simp [rollsBack, decided, missing]
      have short := requestsShort req (List.mem_of_getElem? requested)
      have array := arrays file (List.mem_of_getElem? entry.held)
      have condition :
          rollsBack backend username start
              (.approveAccess (type :: idField :: rest)) =
            (!refuses (approveOnStorage backend file req start) ||
              unlisted file req.fromUser) := by
        simp only [rollsBack, decided, entry.entryNamed_eq, Option.all_some]
      rw [condition]
      intro looked isLooked
      simp only [bind_apply, changeNs, modify_apply]
      generalize asked : approveOnStorage backend file req _ = result
      cases result with
      | error refusal answered =>
          exact absurd asked (onlyAsks_approveOnStorage file req).ne_error
      | ok outcome answered =>
          obtain ⟨answer, answeredFiles⟩ := isLooked.decidedGrant asked
          rw [answer]
          cases outcome with
          | none =>
              exact iff_of_true (.of_ok _ _) (by simp)
          | some refusal =>
              have undone :
                  (ungranted index position req answered).ns.files =
                    start.ns.files.modify index fun entry =>
                      (fileRemoveAccess
                        (fileAddAccess entry req.fromUser req.grantRead
                          req.grantWrite).2
                        req.fromUser).2 := by
                change answered.ns.files.modify index _ = _
                rw [answeredFiles, List.modify_modify_eq]
                rfl
              refine failureKeepsLists_error_iff.trans ?_
              refine (listsUnchanged_modify_iff entry.held undone).trans ?_
              rw [sameListed_taken_back_iff array short]
              simp
    · next noRequest =>
      have unrequested : request = none := by
        rcases request with _ | ⟨position, req⟩
        · rfl
        · exact (noRequest position req rfl).elim
      refine .refuse ?_ _ _
      simp [rollsBack, decided, unrequested]
  · next other =>
    refine .refuse ?_ _ _
    unfold rollsBack
    split
    · next shape => cases shape
    · next shape => cases shape
    · next shape =>
      cases shape
      exact absurd rfl (other _ _ _)
    · rfl

end Handlers

/--
A change of access that fails leaves the users on the lists as they were
exactly if it can be rolled back.
-/
theorem failureKeepsLists_iff_rollsBack
    {World : Type}
    (backend : Backend World)
    (now : Int)
    (username : CString)
    {state : NsState World}
    (coherent : Coherent state.ns)
    (arrays : ∀ file ∈ state.ns.files, file.AclArrays)
    (requestsShort :
      ∀ req ∈ state.ns.accessRequests,
        req.fromUser.length < maxUsernameLength)
    (change : AccessChange) :
    FailureKeepsLists state
        (change.command.handler backend now username state) ↔
      rollsBack backend username state change = true := by
  have known := Looked.refl coherent
  cases change with
  | addAccess msg => exact failureKeepsIff_handleAddAccess arrays msg state known
  | remAccess msg => exact failureKeepsIff_handleRemAccess arrays msg state known
  | approveAccess msg =>
      exact failureKeepsIff_handleApproveAccess arrays requestsShort msg state
        known

/-! ## A reader who is to write -/

/-- `ada` has let `bob` read her file. -/
def sharedToRead : NameServer :=
  (runFrom (nsStep acceptingStorage) ⟨nsInit, ()⟩
    [.servers [someStorageServer],
      .command 1 (str "ada") (.create [str "CREATE", str "a"]),
      .command 2 (str "ada")
        (.addAccess [str "ADDACCESS", str "a", str "bob", str "R"])]).ns

/-- The storage server disconnects while it is asked. -/
def disconnectingStorage : Backend Unit :=
  fun _ _ world => (.failed (-5), world)

theorem failureKeepsLists_newUser :
    (sharedToRead.files.map FileMetadata.readAccessUsers = [[str "bob"]] ∧
        (finalState
          (handleAddAccess disconnectingStorage (str "ada")
            [str "ADDACCESS", str "a", str "eve", str "W"]
            ⟨sharedToRead, ()⟩)).ns.files.map
              FileMetadata.readAccessUsers = [[str "bob"]]) ∧
      FailureKeepsLists ⟨sharedToRead, ()⟩
        ((AccessChange.addAccess
              [str "ADDACCESS", str "a", str "eve", str "W"]).command.handler
          disconnectingStorage 3 (str "ada") ⟨sharedToRead, ()⟩) :=
  ⟨by decide +kernel,
    (@failureKeepsLists_iff_rollsBack Unit disconnectingStorage 3 (str "ada")
      ⟨sharedToRead, ()⟩ (registry_reachable acceptingStorage () _).coherent
      (by decide +kernel) (by decide +kernel) _).mpr (by decide +kernel)⟩

/-- `bob` is to write as well; the storage server fails, and he cannot read. -/
theorem not_failureKeepsLists_reader :
    ¬∀ (state : NsState Unit) (change : AccessChange),
      Coherent state.ns →
        (∀ file ∈ state.ns.files, file.AclArrays) →
          (∀ req ∈ state.ns.accessRequests,
            req.fromUser.length < maxUsernameLength) →
            FailureKeepsLists state
              (change.command.handler disconnectingStorage 3 (str "ada")
                state) := by
  intro always
  have keeps :=
    always ⟨sharedToRead, ()⟩
      (.addAccess [str "ADDACCESS", str "a", str "bob", str "W"])
      (registry_reachable acceptingStorage () _).coherent
      (by decide +kernel) (by decide +kernel)
  have readers :
      sharedToRead.files.map FileMetadata.readAccessUsers = [[str "bob"]] := by
    decide +kernel
  have nobody :
      (finalState
        (handleAddAccess disconnectingStorage (str "ada")
          [str "ADDACCESS", str "a", str "bob", str "W"]
          ⟨sharedToRead, ()⟩)).ns.files.map FileMetadata.readAccessUsers =
        [[]] := by
    decide +kernel
  have fails :
      (match
          handleAddAccess disconnectingStorage (str "ada")
            [str "ADDACCESS", str "a", str "bob", str "W"]
            ⟨sharedToRead, ()⟩ with
        | .ok _ _ => false
        | .error _ _ => true) = true := by
    decide +kernel
  cases outcome :
      handleAddAccess disconnectingStorage (str "ada")
        [str "ADDACCESS", str "a", str "bob", str "W"]
        ⟨sharedToRead, ()⟩ with
  | ok reply final =>
      rw [outcome] at fails
      cases fails
  | error refusal final =>
      rw [outcome, finalState_error] at nobody
      obtain ⟨file, isBefore, isReader⟩ := List.map_eq_singleton_iff.mp readers
      obtain ⟨later, isAfter, isEmpty⟩ := List.map_eq_singleton_iff.mp nobody
      have unchanged := keeps refusal final outcome
      rw [ListsUnchanged, isBefore, isAfter, List.forall₂_cons] at unchanged
      have back := (unchanged.1.1 (str "bob")).mpr (by simp [isReader])
      rw [isEmpty] at back
      cases back

end DistributedDocs
