import DistributedDocs.GuardedRun
import DistributedDocs.NameServerCommands
import DistributedDocs.NameServerLookup
import DistributedDocs.UserLists

namespace DistributedDocs

/-!
# Access lists as sets

The two lists of an entry are arrays that `file_add_access`,
`file_remove_access` and `file_acl_parse_csv` change in place.  They hold every
user once, and all that the calls do can be said in terms of membership.
-/

/-! ## Taking a user off -/

section Removal

variable
  {entries : List CString}
  {user : CString}

/-- `file_acl_remove` takes the user's entry out, in some order. -/
theorem fileAclRemove_perm
    (short : ∀ entry ∈ entries, entry.length < maxUsernameLength)
    (user : CString) :
    (fileAclRemove entries user).2.Perm (entries.erase user) := by
  have sameIndex :
      (entries.findIdx? fun entry =>
        strncmpEq entry user maxUsernameLength) =
        entries.idxOf? user := by
    refine findIdx?_congr fun entry member => ?_
    rw [Bool.eq_iff_iff, strncmpEq_iff (short entry member), beq_iff_eq]
  rw [List.erase_eq_eraseIdx, fileAclRemove, sameIndex]
  cases found : entries.idxOf? user with
  | none =>
      exact List.Perm.refl _
  | some gap =>
      obtain ⟨inRange, _⟩ := List.findIdx?_eq_some_iff_getElem.mp found
      have nonempty : entries ≠ [] := List.ne_nil_of_length_pos (by omega)
      have isLast : entries.getLast? = some (entries.getLastD []) := by
        rw [List.getLast?_eq_some_getLast nonempty,
          List.getLastD_eq_getLast?, List.getLast?_eq_some_getLast nonempty]
        rfl
      exact dropLast_set_perm isLast inRange

theorem findIdx?_of_absent
    (absent : fileAclContains entries user = false) :
    (entries.findIdx? fun entry =>
      strncmpEq entry user maxUsernameLength) = none := by
  rw [List.findIdx?_eq_none_iff]
  intro entry member
  exact Bool.eq_false_iff.mpr (List.any_eq_false.mp absent entry member)

theorem fileAclRemove_of_absent
    (absent : fileAclContains entries user = false) :
    (fileAclRemove entries user).2 = entries := by
  simp only [fileAclRemove, findIdx?_of_absent absent]

/-- Removing the user that has just been added gives the list back. -/
theorem fileAclRemove_added
    (short : user.length < maxUsernameLength)
    (absent : fileAclContains entries user = false) :
    (fileAclRemove (entries ++ [user]) user).2 = entries := by
  have found :
      ((entries ++ [user]).findIdx? fun entry =>
        strncmpEq entry user maxUsernameLength) = some entries.length := by
    rw [List.findIdx?_append, findIdx?_of_absent absent]
    simp [(strncmpEq_iff short).mpr rfl]
  simp [fileAclRemove, found]

end Removal

/-! ## One list -/

/-- An array of users, as its size and its entries allow, without duplicates. -/
structure UserArray (users : List CString) : Prop where
  short : ∀ user ∈ users, user.length < maxUsernameLength
  distinct : users.Nodup
  hasRoom : users.length ≤ nsMaxClients

instance UserArray.decidable (users : List CString) :
    Decidable (UserArray users) :=
  decidable_of_iff
    ((∀ user ∈ users, user.length < maxUsernameLength) ∧ users.Nodup ∧
      users.length ≤ nsMaxClients)
    ⟨fun ⟨short, distinct, hasRoom⟩ => ⟨short, distinct, hasRoom⟩,
      fun ⟨short, distinct, hasRoom⟩ => ⟨short, distinct, hasRoom⟩⟩

namespace UserArray

variable
  {users added : List CString}
  {user : CString}

theorem contains_iff
    (array : UserArray users)
    (user : CString) :
    fileAclContains users user = true ↔ user ∈ users :=
  fileAclContains_iff array.short user

/-- `file_acl_add` in terms of membership. -/
theorem fileAclAdd_eq
    (array : UserArray users)
    (short : user.length < maxUsernameLength) :
    fileAclAdd users user =
      if user ∈ users then some users
      else if nsMaxClients ≤ users.length then none
      else some (users ++ [user]) := by
  simp only [fileAclAdd, array.contains_iff, safeStrcpy_of_short short]

theorem of_fileAclAdd
    (array : UserArray users)
    (short : user.length < maxUsernameLength)
    (isAdded : fileAclAdd users user = some added) :
    UserArray added := by
  rw [array.fileAclAdd_eq short] at isAdded
  split at isAdded
  · exact Option.some.inj isAdded ▸ array
  · next absent =>
    split at isAdded
    · cases isAdded
    · next room =>
      obtain rfl := Option.some.inj isAdded
      refine ⟨?_, ?_, ?_⟩
      · intro other member
        rcases List.mem_append.mp member with old | new
        · exact array.short other old
        · exact List.mem_singleton.mp new ▸ short
      · exact List.nodup_append.mpr
          ⟨array.distinct, List.nodup_singleton user,
            fun other old same new equal =>
              absent (List.mem_singleton.mp new ▸ equal ▸ old)⟩
      · rw [List.length_append, List.length_singleton]
        omega

/-- Whoever is added is on the list, and nobody else comes or goes. -/
theorem mem_fileAclAdd
    (array : UserArray users)
    (short : user.length < maxUsernameLength)
    (isAdded : fileAclAdd users user = some added)
    (other : CString) :
    other ∈ added ↔ other ∈ users ∨ other = user := by
  rw [array.fileAclAdd_eq short] at isAdded
  split at isAdded
  · next present =>
    obtain rfl := Option.some.inj isAdded
    refine ⟨Or.inl, ?_⟩
    rintro (old | rfl)
    · exact old
    · exact present
  · split at isAdded
    · cases isAdded
    · obtain rfl := Option.some.inj isAdded
      simp

theorem fileAclRemove_perm
    (array : UserArray users)
    (user : CString) :
    (DistributedDocs.fileAclRemove users user).2.Perm (users.erase user) :=
  DistributedDocs.fileAclRemove_perm array.short user

theorem fileAclRemove
    (array : UserArray users)
    (user : CString) :
    UserArray (DistributedDocs.fileAclRemove users user).2 := by
  have perm := array.fileAclRemove_perm user
  refine ⟨fun other member => array.short other ?_, ?_, ?_⟩
  · exact List.mem_of_mem_erase (perm.mem_iff.mp member)
  · exact perm.nodup_iff.mpr (array.distinct.erase user)
  · rw [perm.length_eq]
    exact Nat.le_trans List.length_erase_le array.hasRoom

/-- Whoever is removed is off the list, and nobody else comes or goes. -/
theorem mem_fileAclRemove
    (array : UserArray users)
    (user other : CString) :
    other ∈ (DistributedDocs.fileAclRemove users user).2 ↔
      other ∈ users ∧ other ≠ user := by
  rw [(array.fileAclRemove_perm user).mem_iff, array.distinct.mem_erase_iff]
  exact and_comm

/-- There is room again for whoever has been removed. -/
theorem length_fileAclRemove_lt
    (array : UserArray users)
    (present : user ∈ users) :
    (DistributedDocs.fileAclRemove users user).2.length < nsMaxClients := by
  have positive := List.length_pos_of_mem present
  have bound := array.hasRoom
  rw [(array.fileAclRemove_perm user).length_eq,
    List.length_erase_of_mem present]
  omega

end UserArray

/-- `file_acl_remove` says whether the user was on the list. -/
theorem fileAclRemove_fst
    (users : List CString)
    (user : CString) :
    (fileAclRemove users user).1 = fileAclContains users user := by
  have present :
      (users.findIdx? fun entry =>
        strncmpEq entry user maxUsernameLength).isSome =
        fileAclContains users user :=
    List.findIdx?_isSome
  unfold fileAclRemove
  cases found : users.findIdx? fun entry =>
      strncmpEq entry user maxUsernameLength with
  | none =>
      rw [found] at present
      exact present
  | some gap =>
      rw [found] at present
      exact present

/-! ## Lists of valid users -/

theorem UserList.nil : UserList [] :=
  ⟨by simp, List.nodup_nil, by simp⟩

theorem UserList.array
    {users : List CString}
    (list : UserList users) :
    UserArray users where
  short user member := (validateUsername_iff.mp (list.valid user member)).2.1
  distinct := list.distinct
  hasRoom := list.hasRoom

theorem UserList.of_fileAclAdd
    {users added : List CString}
    (list : UserList users)
    {user : CString}
    (valid : validateUsername user = true)
    (isAdded : fileAclAdd users user = some added) :
    UserList added := by
  have short := (validateUsername_iff.mp valid).2.1
  have after := list.array.of_fileAclAdd short isAdded
  refine ⟨fun other member => ?_, after.distinct, after.hasRoom⟩
  rcases (list.array.mem_fileAclAdd short isAdded other).mp member
    with old | rfl
  · exact list.valid other old
  · exact valid

theorem UserList.fileAclRemove
    {users : List CString}
    (list : UserList users)
    (user : CString) :
    UserList (DistributedDocs.fileAclRemove users user).2 := by
  have after := list.array.fileAclRemove user
  refine ⟨fun other member => ?_, after.distinct, after.hasRoom⟩
  exact list.valid other ((list.array.mem_fileAclRemove user other).mp member).1

/-- Reading a text makes a list that behaves like any other. -/
theorem UserList.addTokens
    {users : List CString}
    (list : UserList users)
    (tokens : List CString) :
    UserList (DistributedDocs.addTokens users tokens) := by
  induction tokens generalizing users with
  | nil =>
      exact list
  | cons token rest inductionHypothesis =>
      rw [DistributedDocs.addTokens]
      split
      · next accepted =>
        have valid : validateUsername (trimString token) = true :=
          (Bool.and_eq_true_iff.mp accepted).2
        split
        · next added isAdded =>
          exact inductionHypothesis (list.of_fileAclAdd valid isAdded)
        · exact list
      · exact inductionHypothesis list

theorem userList_fileAclParseCsv (text : CString) :
    UserList (fileAclParseCsv text) :=
  UserList.nil.addTokens _

/-! ## The two lists of an entry -/

/-- Both lists of an entry are sets of users. -/
structure FileMetadata.AclsAreSets (file : FileMetadata) : Prop where
  readers : UserList file.readAccessUsers
  writers : UserList file.writeAccessUsers

/-- The calls that change the lists of an entry. -/
inductive AclCall where
  | addAccess (username : CString) (grantRead grantWrite : Bool)
  | removeAccess (username : CString)
  | parseReadCsv (csv : CString)
  | parseWriteCsv (csv : CString)

/-- The user a call names, if it names one, passes `validate_username`. -/
def AclCall.userValid : AclCall → Bool
  | .addAccess username _ _ => validateUsername username
  | .removeAccess username => validateUsername username
  | .parseReadCsv _ => true
  | .parseWriteCsv _ => true

/-- What a call leaves. -/
def AclCall.apply (file : FileMetadata) : AclCall → FileMetadata
  | .addAccess username grantRead grantWrite =>
      (fileAddAccess file username grantRead grantWrite).2
  | .removeAccess username => (fileRemoveAccess file username).2
  | .parseReadCsv csv =>
      { file with readAccessUsers := fileAclParseCsv csv }
  | .parseWriteCsv csv =>
      { file with writeAccessUsers := fileAclParseCsv csv }

/-- Both lists of an entry are arrays without duplicates. -/
structure FileMetadata.AclArrays (file : FileMetadata) : Prop where
  readers : UserArray file.readAccessUsers
  writers : UserArray file.writeAccessUsers

instance FileMetadata.AclArrays.decidable (file : FileMetadata) :
    Decidable file.AclArrays :=
  decidable_of_iff
    (UserArray file.readAccessUsers ∧ UserArray file.writeAccessUsers)
    ⟨fun ⟨readers, writers⟩ => ⟨readers, writers⟩,
      fun ⟨readers, writers⟩ => ⟨readers, writers⟩⟩

/-- A list can take a user. -/
def canList (users : List CString) (user : CString) : Bool :=
  users.contains user || users.length < nsMaxClients

theorem canList_iff {users : List CString} {user : CString} :
    canList users user = true ↔
      user ∈ users ∨ users.length < nsMaxClients := by
  simp [canList]

/-- A list with the user on it, if it can take the user. -/
def listing (users : List CString) (user : CString) : List CString :=
  if user ∈ users then users
  else if nsMaxClients ≤ users.length then users
  else users ++ [user]

theorem UserArray.fileAclAdd_eq_listing
    {users : List CString}
    (array : UserArray users)
    {user : CString}
    (short : user.length < maxUsernameLength) :
    fileAclAdd users user =
      if canList users user then some (listing users user) else none := by
  rw [array.fileAclAdd_eq short, listing]
  by_cases present : user ∈ users
  · simp [canList, present]
  · by_cases full : nsMaxClients ≤ users.length
    · simp [canList, present, full]
    · simp [canList, present, full, Nat.lt_of_not_le full]

theorem mem_listing
    (users : List CString)
    (user other : CString) :
    other ∈ listing users user ↔
      other ∈ users ∨ other = user ∧ canList users user = true := by
  rw [listing, canList_iff]
  by_cases present : user ∈ users
  · simp only [present, ↓reduceIte, true_or, and_true]
    exact ⟨Or.inl, fun either => either.elim id fun same => same ▸ present⟩
  · by_cases full : nsMaxClients ≤ users.length
    · simp [present, full, Nat.not_lt.mpr full]
    · simp [present, full, Nat.lt_of_not_le full]

namespace FileMetadata.AclArrays

variable
  {file : FileMetadata}
  {username : CString}

/-- What `file_add_access` returns and leaves. -/
theorem fileAddAccess_eq
    (arrays : file.AclArrays)
    (short : username.length < maxUsernameLength)
    (grantRead grantWrite : Bool) :
    fileAddAccess file username grantRead grantWrite =
      if !(grantRead || grantWrite) then (true, file)
      else if !canList file.readAccessUsers username then (false, file)
      else if grantWrite && canList file.writeAccessUsers username then
        (true,
          { file with
            readAccessUsers := listing file.readAccessUsers username
            writeAccessUsers := listing file.writeAccessUsers username })
      else
        (!grantWrite,
          { file with
            readAccessUsers := listing file.readAccessUsers username }) := by
  unfold fileAddAccess
  rw [arrays.readers.fileAclAdd_eq_listing short]
  cases canList file.readAccessUsers username with
  | false =>
      cases grantRead <;> cases grantWrite <;> simp
  | true =>
      cases grantWrite with
      | false =>
          cases grantRead <;> simp
      | true =>
          have writing := arrays.writers.fileAclAdd_eq_listing short
          cases room : canList file.writeAccessUsers username with
          | false =>
              rw [room] at writing
              simp [writing]
          | true =>
              rw [room] at writing
              simp [writing]

theorem fileAddAccess_fst_iff
    (arrays : file.AclArrays)
    (short : username.length < maxUsernameLength)
    (grantRead grantWrite : Bool) :
    (fileAddAccess file username grantRead grantWrite).1 = true ↔
      ((grantRead || grantWrite) = true →
        canList file.readAccessUsers username = true) ∧
      (grantWrite = true →
        canList file.writeAccessUsers username = true) := by
  rw [arrays.fileAddAccess_eq short]
  cases grantRead <;> cases grantWrite <;>
    cases canList file.readAccessUsers username <;>
    cases canList file.writeAccessUsers username <;> simp

/-- Who is on the lists after a grant. -/
theorem mem_fileAddAccess
    (arrays : file.AclArrays)
    (short : username.length < maxUsernameLength)
    (grantRead grantWrite : Bool)
    (other : CString) :
    (other ∈
          (fileAddAccess file username grantRead grantWrite).2.readAccessUsers ↔
        other ∈ file.readAccessUsers ∨
          other = username ∧ (grantRead || grantWrite) = true ∧
            canList file.readAccessUsers username = true) ∧
      (other ∈
          (fileAddAccess file username grantRead
            grantWrite).2.writeAccessUsers ↔
        other ∈ file.writeAccessUsers ∨
          other = username ∧ grantWrite = true ∧
            canList file.readAccessUsers username = true ∧
            canList file.writeAccessUsers username = true) := by
  rw [arrays.fileAddAccess_eq short]
  cases grantRead <;> cases grantWrite <;>
    cases reading : canList file.readAccessUsers username <;>
    cases writing : canList file.writeAccessUsers username <;>
    simp [mem_listing, reading, writing]

/-- Who is on the lists after a revocation. -/
theorem mem_fileRemoveAccess
    (arrays : file.AclArrays)
    (username other : CString) :
    (other ∈ (fileRemoveAccess file username).2.readAccessUsers ↔
        other ∈ file.readAccessUsers ∧ other ≠ username) ∧
      (other ∈ (fileRemoveAccess file username).2.writeAccessUsers ↔
        other ∈ file.writeAccessUsers ∧ other ≠ username) :=
  ⟨arrays.readers.mem_fileAclRemove username other,
    arrays.writers.mem_fileAclRemove username other⟩

theorem fileRemoveAccess_fst_iff
    (arrays : file.AclArrays)
    (username : CString) :
    (fileRemoveAccess file username).1 = true ↔
      username ∈ file.readAccessUsers ∨ username ∈ file.writeAccessUsers := by
  rw [← arrays.readers.contains_iff, ← arrays.writers.contains_iff,
    ← fileAclRemove_fst, ← fileAclRemove_fst, ← Bool.or_eq_true]
  rfl

theorem removed
    (arrays : file.AclArrays)
    (username : CString) :
    (fileRemoveAccess file username).2.AclArrays :=
  ⟨arrays.readers.fileAclRemove username, arrays.writers.fileAclRemove username⟩

theorem added
    (arrays : file.AclArrays)
    (short : username.length < maxUsernameLength)
    (grantRead grantWrite : Bool) :
    (fileAddAccess file username grantRead grantWrite).2.AclArrays := by
  have listed :
      ∀ users : List CString, UserArray users →
        UserArray (listing users username) := by
    intro users array
    have added := array.fileAclAdd_eq_listing short
    by_cases room : canList users username = true
    · rw [if_pos room] at added
      exact array.of_fileAclAdd short added
    · rw [canList_iff, not_or] at room
      rw [listing, if_neg room.1, if_pos (Nat.not_lt.mp room.2)]
      exact array
  rw [arrays.fileAddAccess_eq short]
  split
  · exact arrays
  · split
    · exact arrays
    · split
      · exact ⟨listed _ arrays.readers, listed _ arrays.writers⟩
      · exact ⟨listed _ arrays.readers, arrays.writers⟩

/-- Who has read access, in terms of membership. -/
theorem fileHasReadAccess_iff
    (arrays : file.AclArrays)
    (username : CString) :
    fileHasReadAccess file username = true ↔
      strncmpEq file.owner username maxUsernameLength = true ∨
        username ∈ file.readAccessUsers ∨ username ∈ file.writeAccessUsers := by
  rw [fileHasReadAccess, Bool.or_eq_true, Bool.or_eq_true,
    arrays.readers.contains_iff, arrays.writers.contains_iff, or_assoc]

theorem fileHasWriteAccess_iff
    (arrays : file.AclArrays)
    (username : CString) :
    fileHasWriteAccess file username = true ↔
      strncmpEq file.owner username maxUsernameLength = true ∨
        username ∈ file.writeAccessUsers := by
  rw [fileHasWriteAccess, Bool.or_eq_true, arrays.writers.contains_iff]

end FileMetadata.AclArrays

namespace FileMetadata.AclsAreSets

variable {file : FileMetadata}

theorem arrays (sets : file.AclsAreSets) : file.AclArrays :=
  ⟨sets.readers.array, sets.writers.array⟩

theorem of_empty
    (noReaders : file.readAccessUsers = [])
    (noWriters : file.writeAccessUsers = []) :
    file.AclsAreSets :=
  ⟨noReaders ▸ UserList.nil, noWriters ▸ UserList.nil⟩

theorem addAccess
    (sets : file.AclsAreSets)
    {username : CString}
    (valid : validateUsername username = true)
    (grantRead grantWrite : Bool) :
    (fileAddAccess file username grantRead grantWrite).2.AclsAreSets := by
  have short := (validateUsername_iff.mp valid).2.1
  have arrays := sets.arrays.added short grantRead grantWrite
  have members := sets.arrays.mem_fileAddAccess short grantRead grantWrite
  refine ⟨⟨fun user member => ?_, arrays.readers.distinct,
    arrays.readers.hasRoom⟩, ⟨fun user member => ?_,
    arrays.writers.distinct, arrays.writers.hasRoom⟩⟩
  · rcases (members user).1.mp member with old | ⟨rfl, _⟩
    · exact sets.readers.valid user old
    · exact valid
  · rcases (members user).2.mp member with old | ⟨rfl, _⟩
    · exact sets.writers.valid user old
    · exact valid

theorem removeAccess
    (sets : file.AclsAreSets)
    (username : CString) :
    (fileRemoveAccess file username).2.AclsAreSets :=
  ⟨sets.readers.fileAclRemove username, sets.writers.fileAclRemove username⟩

/-- Every call leaves two sets. -/
theorem apply
    (sets : file.AclsAreSets)
    {call : AclCall}
    (valid : call.userValid = true) :
    (call.apply file).AclsAreSets := by
  cases call with
  | addAccess username grantRead grantWrite =>
      exact sets.addAccess valid grantRead grantWrite
  | removeAccess username => exact sets.removeAccess username
  | parseReadCsv csv => exact ⟨userList_fileAclParseCsv csv, sets.writers⟩
  | parseWriteCsv csv => exact ⟨sets.readers, userList_fileAclParseCsv csv⟩

end FileMetadata.AclsAreSets

/-- The lists are sets, and the next call treats them as such. -/
structure AclsBehaveAsSets (file : FileMetadata) : Prop where
  sets : file.AclsAreSets
  nonempty :
    ∀ user ∈ file.readAccessUsers ++ file.writeAccessUsers, user ≠ []
  granted :
    ∀ username grantRead grantWrite, validateUsername username = true →
      (grantRead || grantWrite) = true →
        (fileAddAccess file username grantRead grantWrite).1 = true →
          username ∈
              (fileAddAccess file username grantRead
                grantWrite).2.readAccessUsers ∧
            (grantWrite = true →
              username ∈
                (fileAddAccess file username grantRead
                  grantWrite).2.writeAccessUsers)
  revoked :
    ∀ username, validateUsername username = true →
      username ∉ (fileRemoveAccess file username).2.readAccessUsers ∧
        username ∉ (fileRemoveAccess file username).2.writeAccessUsers ∧
        (strncmpEq file.owner username maxUsernameLength = false →
          fileHasReadAccess (fileRemoveAccess file username).2 username =
              false ∧
            fileHasWriteAccess (fileRemoveAccess file username).2 username =
              false)
  others_granted :
    ∀ username other grantRead grantWrite, validateUsername username = true →
      other ≠ username →
        (other ∈
              (fileAddAccess file username grantRead
                grantWrite).2.readAccessUsers ↔
            other ∈ file.readAccessUsers) ∧
          (other ∈
              (fileAddAccess file username grantRead
                grantWrite).2.writeAccessUsers ↔
            other ∈ file.writeAccessUsers)
  others_revoked :
    ∀ username other, other ≠ username →
      (other ∈ (fileRemoveAccess file username).2.readAccessUsers ↔
          other ∈ file.readAccessUsers) ∧
        (other ∈ (fileRemoveAccess file username).2.writeAccessUsers ↔
          other ∈ file.writeAccessUsers)
  write_reads :
    ∀ username, fileHasWriteAccess file username = true →
      fileHasReadAccess file username = true

theorem FileMetadata.AclsAreSets.behave
    {file : FileMetadata}
    (sets : file.AclsAreSets) :
    AclsBehaveAsSets file where
  sets := sets
  nonempty user member := by
    rcases List.mem_append.mp member with reader | writer
    · exact (validateUsername_iff.mp (sets.readers.valid user reader)).1
    · exact (validateUsername_iff.mp (sets.writers.valid user writer)).1
  granted username grantRead grantWrite valid some added := by
    have short := (validateUsername_iff.mp valid).2.1
    obtain ⟨reading, writing⟩ :=
      (sets.arrays.fileAddAccess_fst_iff short grantRead grantWrite).mp added
    obtain ⟨read, write⟩ :=
      sets.arrays.mem_fileAddAccess short grantRead grantWrite username
    exact ⟨read.mpr (.inr ⟨rfl, some, reading some⟩),
      fun granted =>
        write.mpr (.inr ⟨rfl, granted, reading some, writing granted⟩)⟩
  revoked username valid := by
    have after := sets.arrays.removed username
    obtain ⟨reading, writing⟩ :=
      sets.arrays.mem_fileRemoveAccess username username
    have noReader :
        username ∉ (fileRemoveAccess file username).2.readAccessUsers :=
      fun member => (reading.mp member).2 rfl
    have noWriter :
        username ∉ (fileRemoveAccess file username).2.writeAccessUsers :=
      fun member => (writing.mp member).2 rfl
    refine ⟨noReader, noWriter, fun notOwner => ?_⟩
    have stranger :
        ¬strncmpEq (fileRemoveAccess file username).2.owner username
          maxUsernameLength = true :=
      Bool.eq_false_iff.mp notOwner
    constructor
    · rw [Bool.eq_false_iff, ne_eq, after.fileHasReadAccess_iff]
      rintro (owner | reader | writer)
      · exact stranger owner
      · exact noReader reader
      · exact noWriter writer
    · rw [Bool.eq_false_iff, ne_eq, after.fileHasWriteAccess_iff]
      rintro (owner | writer)
      · exact stranger owner
      · exact noWriter writer
  others_granted username other grantRead grantWrite valid different := by
    obtain ⟨reading, writing⟩ :=
      sets.arrays.mem_fileAddAccess (validateUsername_iff.mp valid).2.1
        grantRead grantWrite other
    exact ⟨by simp [reading, different], by simp [writing, different]⟩
  others_revoked username other different := by
    obtain ⟨reading, writing⟩ :=
      sets.arrays.mem_fileRemoveAccess username other
    exact ⟨by simp [reading, different], by simp [writing, different]⟩
  write_reads username writes := by
    rw [sets.arrays.fileHasWriteAccess_iff] at writes
    rw [sets.arrays.fileHasReadAccess_iff]
    exact writes.imp_right Or.inr

/-- From empty lists on, every sequence of calls keeps the lists sets. -/
theorem aclsBehaveAsSets_of_calls
    {file : FileMetadata}
    (noReaders : file.readAccessUsers = [])
    (noWriters : file.writeAccessUsers = [])
    {calls : List AclCall}
    (valid : ∀ call ∈ calls, call.userValid = true) :
    AclsBehaveAsSets (runFrom AclCall.apply file calls) := by
  have guarded :
      GuardedRun AclCall.apply (fun _ call => call.userValid = true) file
        calls :=
    .of_forall_mem valid
  have preserved :
      ∀ (file : FileMetadata) (call : AclCall), file.AclsAreSets →
        call.userValid = true → (AclCall.apply file call).AclsAreSets :=
    fun _ _ sets valid => sets.apply valid
  have sets :=
    guarded.invariant preserved (.of_empty noReaders noWriters)
  exact sets.behave

/-- A grant, a list that is read twice over, and a revocation. -/
def someAclCalls : List AclCall :=
  [ .addAccess (str "ada") false true,
    .parseReadCsv (str "bob, ada,bob,no-name"),
    .removeAccess (str "bob") ]

theorem aclsBehaveAsSets_someAclCalls :
    (runFrom AclCall.apply (blankMetadata (str "a") (str "eve"))
        someAclCalls).readAccessUsers = [str "ada"] ∧
      AclsBehaveAsSets
        (runFrom AclCall.apply (blankMetadata (str "a") (str "eve"))
          someAclCalls) :=
  ⟨by decide +kernel,
    aclsBehaveAsSets_of_calls rfl rfl (by decide +kernel)⟩

end DistributedDocs
