import DistributedDocs.DelimitedText
import DistributedDocs.NameServer

namespace DistributedDocs

/-!
# Lists of users as text

Access lists are stored and sent as user names with commas between them.
`file_acl_parse_csv` reads such a text back through a buffer of
`MAX_FIELD_SIZE` bytes, so a list whose text is longer is cut.
-/

/-- Users with commas between them. -/
def csv (users : List CString) : CString :=
  List.intercalate (str ",") users

/-- What `file_acl_add` makes of every access list, of valid users. -/
structure UserList (users : List CString) : Prop where
  valid : ∀ user ∈ users, validateUsername user = true
  distinct : users.Nodup
  hasRoom : users.length ≤ nsMaxClients

/-! ## Valid user names -/

theorem validateUsername_iff {user : CString} :
    validateUsername user = true ↔
      user ≠ [] ∧ user.length < maxUsernameLength ∧
        ∀ c ∈ user, isalnum c = true ∨ c = CChar.ofChar '_' := by
  simp only [validateUsername, Bool.and_eq_true, decide_eq_true_eq,
    List.all_eq_true, Bool.or_eq_true, beq_iff_eq, and_assoc]

/-- The characters of a user name are no white space and no punctuation. -/
theorem ne_of_validateUsername
    {user : CString}
    (valid : validateUsername user = true)
    {separator : CChar}
    (other : ¬(isalnum separator = true ∨ separator = CChar.ofChar '_')) :
    separator ∉ user :=
  fun member =>
    other ((validateUsername_iff.mp valid).2.2 separator member)

theorem isspace_of_isalnum
    {c : CChar}
    (alnum : isalnum c = true ∨ c = CChar.ofChar '_') :
    isspace c = false := by
  rcases alnum with letter | rfl
  · cases spaced : isspace c with
    | false =>
        rfl
    | true =>
        simp only [isalnum, isspace, Bool.or_eq_true, Bool.and_eq_true,
          beq_iff_eq, decide_eq_true_eq, UInt8.le_iff_toNat_le,
          ← UInt8.toNat_inj] at letter spaced
        simp at letter spaced
        omega
  · decide

theorem trimString_of_validateUsername
    {user : CString}
    (valid : validateUsername user = true) :
    trimString user = user :=
  trimString_of_no_space fun c member =>
    isspace_of_isalnum ((validateUsername_iff.mp valid).2.2 c member)

/-! ## Reading a list that fits -/

/-- `strtok` gives back the users of a list. -/
theorem strtok_csv
    {users : List CString}
    (nonempty : ∀ user ∈ users, user ≠ [])
    (noComma : ∀ user ∈ users, CChar.ofChar ',' ∉ user) :
    strtok ',' (csv users) = users := by
  have kept : users.filter (fun token => token ≠ []) = users :=
    List.filter_eq_self.mpr fun user member => by
      simpa using nonempty user member
  cases users with
  | nil =>
      rfl
  | cons user rest =>
      have split :
          (csv (user :: rest)).splitOnP (fun c => c = CChar.ofChar ',') =
            user :: rest :=
        splitOnP_intercalate (CChar.ofChar ',') (by simp) noComma
      rw [strtok, split]
      exact kept

theorem fileAclContains_iff
    {entries : List CString}
    (short : ∀ entry ∈ entries, entry.length < maxUsernameLength)
    (username : CString) :
    fileAclContains entries username = true ↔ username ∈ entries := by
  simp only [fileAclContains, List.any_eq_true]
  constructor
  · rintro ⟨entry, member, same⟩
    rw [← (strncmpEq_iff (short entry member)).mp same]
    exact member
  · intro member
    exact ⟨username, member, (strncmpEq_iff (short username member)).mpr rfl⟩

/-- Adding the users of a list one by one gives the list. -/
theorem addTokens_users
    {entries users : List CString}
    (list : UserList (entries ++ users)) :
    addTokens entries users = entries ++ users := by
  induction users generalizing entries with
  | nil =>
      rw [addTokens, List.append_nil]
  | cons user rest inductionHypothesis =>
      have regrouped : entries ++ user :: rest = (entries ++ [user]) ++ rest := by
        simp
      have valid : validateUsername user = true :=
        list.valid user (by simp)
      obtain ⟨nonempty, short, _⟩ := validateUsername_iff.mp valid
      have shortEntries :
          ∀ entry ∈ entries, entry.length < maxUsernameLength :=
        fun entry member =>
          (validateUsername_iff.mp
            (list.valid entry (List.mem_append_left _ member))).2.1
      have absent : ¬fileAclContains entries user = true := by
        rw [fileAclContains_iff shortEntries]
        intro member
        exact (List.nodup_append.mp list.distinct).2.2 user member user
          List.mem_cons_self rfl
      have room : ¬nsMaxClients ≤ entries.length := by
        have whole := list.hasRoom
        rw [List.length_append, List.length_cons] at whole
        omega
      have added : fileAclAdd entries user = some (entries ++ [user]) := by
        rw [fileAclAdd, if_neg absent, if_neg room, safeStrcpy_of_short short]
      rw [regrouped] at list ⊢
      simp only [addTokens, trimString_of_validateUsername valid, nonempty,
        ne_eq, not_false_eq_true, decide_true, valid, Bool.and_self,
        ↓reduceIte, added]
      exact inductionHypothesis list

/-- A list whose text fits the buffer is read back. -/
theorem fileAclParseCsv_of_fits
    {users : List CString}
    (list : UserList users)
    (fits : (csv users).length < maxFieldSize) :
    fileAclParseCsv (csv users) = users := by
  rw [fileAclParseCsv, safeStrcpy_of_short fits, strtok_csv]
  · exact addTokens_users list
  · exact fun user member =>
      (validateUsername_iff.mp (list.valid user member)).1
  · exact fun user member =>
      ne_of_validateUsername (list.valid user member) (by decide)

/-! ## What a text has room for -/

/-- A list of tokens has room for what is added from it. -/
theorem roomFor_addTokens (entries tokens : List CString) :
    roomFor (addTokens entries tokens) ≤
      roomFor entries + roomFor tokens := by
  induction tokens generalizing entries with
  | nil =>
      exact Nat.le_refl _
  | cons token rest inductionHypothesis =>
      have shorter := (trimString_sublist token).length_le
      rw [addTokens, roomFor_cons]
      split
      · split
        · next added isAdded =>
          have recursive := inductionHypothesis added
          have grown :
              roomFor added ≤ roomFor entries + (token.length + 1) := by
            unfold fileAclAdd at isAdded
            split at isAdded
            · rw [← Option.some.inj isAdded]
              omega
            · split at isAdded
              · cases isAdded
              · rw [← Option.some.inj isAdded, roomFor_append, roomFor_cons,
                  roomFor_nil, safeStrcpy, List.length_take]
                omega
          omega
        · omega
      · have recursive := inductionHypothesis entries
        omega

/-- Nothing longer than the buffer is read from a text. -/
theorem roomFor_fileAclParseCsv (text : CString) :
    roomFor (fileAclParseCsv text) ≤ maxFieldSize := by
  have added :=
    roomFor_addTokens [] (strtok ',' (safeStrcpy text maxFieldSize))
  have tokens :
      roomFor (strtok ',' (safeStrcpy text maxFieldSize)) ≤
        (safeStrcpy text maxFieldSize).length + 1 := by
    rw [← roomFor_splitOnP]
    exact roomFor_sublist List.filter_sublist
  have cut :=
    length_safeStrcpy_lt text (show 0 < maxFieldSize by decide)
  rw [roomFor_nil] at added
  rw [fileAclParseCsv]
  omega

/-- A list is read back exactly if its text fits the buffer. -/
theorem fileAclParseCsv_eq_iff
    {users : List CString}
    (list : UserList users) :
    fileAclParseCsv (csv users) = users ↔
      (csv users).length < maxFieldSize := by
  constructor
  · intro same
    have bound := roomFor_fileAclParseCsv (csv users)
    rw [same] at bound
    rcases List.eq_nil_or_concat users with rfl | ⟨front, last, rfl⟩
    · decide
    · have whole :
          (csv (front.concat last)).length + 1 =
            roomFor (front.concat last) :=
        length_intercalate_add_one (CChar.ofChar ',') (by simp)
      omega
  · exact fileAclParseCsv_of_fits list

end DistributedDocs
