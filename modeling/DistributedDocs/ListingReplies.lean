import DistributedDocs.NameServerReplies
import DistributedDocs.TwinCommands

namespace DistributedDocs

/-!
# Streams of the name server

A listing is replied to with rows of one kind and an end that no row looks
like.  Nothing a listing prints, be it a name, a time or the output of a shell,
can end a message early.
-/

/-! ## Shapes -/

/-- A message of this type with so many fields. -/
structure IsRow (type : String) (count : Nat) (fields : List CString) :
    Prop where
  deliverable : Deliverable fields
  typed : fields.head? = some (str type)
  complete : count ≤ fields.length

/-- Rows of one type, and the end. -/
def RowStream
    (type last : String)
    (count : Nat)
    (messages : List (List CString)) : Prop :=
  ∃ rows, messages = rows ++ [[str last]] ∧
    ∀ fields ∈ rows, IsRow type count fields

/-- The stream of `INFO`, which begins with the name of a file. -/
def InfoStream (messages : List (List CString)) : Prop :=
  ∃ (name : CString) (lines : List CString),
    messages =
        [str "OK_INFO_START", name] ::
          (lines.map fun line => [str "INFO_LINE", line]) ++
            [[str "OK_INFO_END"]] ∧
      (PlainField name ∧ name ≠ [] ∧ name.length < maxFilenameLength) ∧
        ∀ line ∈ lines, FitsField line

/-- The stream of `EXEC`; a delimiter in a line cuts the message. -/
def ExecStream (messages : List (List CString)) : Prop :=
  ∃ lines : List CString,
    messages =
        [str "OK_EXEC_START"] ::
          (lines.map fun line => [str "EXEC_OUT", line]) ++
            [[str "OK_EXEC_END"]] ∧
      ∀ line ∈ lines, newline ∉ line ∧ line.length ≤ maxFieldSize

theorem rowStream_of_map
    {Item : Type}
    {type last : String}
    {count : Nat}
    {items : List Item}
    {row : Item → List CString}
    (isRow : ∀ item ∈ items, IsRow type count (row item)) :
    RowStream type last count (items.map row ++ [[str last]]) := by
  refine ⟨items.map row, rfl, fun fields member => ?_⟩
  obtain ⟨item, listed, rfl⟩ := List.mem_map.mp member
  exact isRow item listed

/-- A short row of fields that fit. -/
theorem isRow_of_fits
    {type : String}
    {arguments : List CString}
    (few : arguments.length ≤ 14)
    (typeFits : FitsField (str type))
    (fits : ∀ field ∈ arguments, FitsField field) :
    IsRow type (arguments.length + 1) (str type :: arguments) where
  deliverable := by
    refine deliverable_of_fits (List.cons_ne_nil _ _)
      (Nat.succ_le_succ few) ?_
    exact List.forall_mem_cons.mpr ⟨typeFits, fits⟩
  typed := rfl
  complete := Nat.le_refl _

theorem IsRow.mono
    {type : String}
    {fewer count : Nat}
    {fields : List CString}
    (isRow : IsRow type count fields)
    (less : fewer ≤ count) :
    IsRow type fewer fields :=
  { isRow with complete := less.trans isRow.complete }

/-! ## Printed fields -/

/-- The text of a time is plain. -/
def Machine.PlainTimes (machine : Machine) : Prop :=
  ∀ time, PlainField (machine.formatTime time)

theorem fitsField_snprintf
    {text : CString}
    (plain : PlainField text)
    {size : Nat}
    (small : size ≤ maxFieldSize + 1) :
    FitsField (snprintf size text) :=
  fitsField_take plain small

theorem plain_timeText
    {machine : Machine}
    (plainTimes : machine.PlainTimes)
    (time : Int) :
    PlainField (timeText machine time) := by
  unfold timeText
  split
  · exact plainTimes time
  · decide

theorem plain_orNone
    {text : CString}
    (plain : PlainField text) :
    PlainField (orNone text) := by
  unfold orNone
  split
  · decide
  · exact plain

theorem fits_orNone
    {text : CString}
    (fits : FitsField text) :
    FitsField (orNone text) := by
  unfold orNone
  split
  · decide
  · exact fits

theorem plain_user
    {user : CString}
    (valid : user = [] ∨ validateUsername user = true) :
    PlainField user := by
  rcases valid with rfl | valid
  · decide
  · exact plainField_of_validateUsername valid

theorem plain_safeStrcat
    {dest source : CString}
    (destPlain : PlainField dest)
    (sourcePlain : PlainField source)
    (size : Nat) :
    PlainField (safeStrcat dest source size) := by
  unfold safeStrcat
  split
  · exact destPlain
  · exact destPlain.append (sourcePlain.sublist (List.take_sublist _ _))

theorem plain_aclAppendToken
    {buffer : Option CString}
    (bufferPlain : ∀ text ∈ buffer, PlainField text)
    {token : CString}
    (tokenPlain : PlainField token) :
    ∀ text ∈ aclAppendToken buffer token, PlainField text := by
  intro text isText
  unfold aclAppendToken at isText
  split at isText
  · exact bufferPlain text isText
  · split at isText
    · obtain rfl := Option.some.inj isText
      exact tokenPlain.sublist (List.take_sublist _ _)
    · next held =>
      obtain rfl := Option.some.inj isText
      exact plain_safeStrcat
        (plain_safeStrcat (bufferPlain held rfl) (by decide) _) tokenPlain _

theorem plain_aclText
    {owner : CString}
    {users : List CString}
    (ownerPlain : PlainField owner)
    (usersPlain : ∀ user ∈ users, PlainField user) :
    PlainField (aclText owner users) := by
  have folded :
      ∀ (tokens : List CString) (buffer : Option CString),
        (∀ token ∈ tokens, PlainField token) →
          (∀ text ∈ buffer, PlainField text) →
            ∀ text ∈ tokens.foldl aclAppendToken buffer,
              PlainField text := by
    intro tokens
    induction tokens with
    | nil =>
        exact fun _ _ bufferPlain => bufferPlain
    | cons token rest inductionHypothesis =>
        intro buffer tokensPlain bufferPlain
        rw [List.forall_mem_cons] at tokensPlain
        exact inductionHypothesis _ tokensPlain.2
          (plain_aclAppendToken bufferPlain tokensPlain.1)
  unfold aclText
  simp only
  generalize joined :
    (owner :: users.filter fun user =>
        !strncmpEq user owner maxUsernameLength).foldl aclAppendToken none =
      outcome
  cases outcome with
  | none =>
      decide
  | some text =>
      refine folded _ none ?_ (by simp) text joined
      refine List.forall_mem_cons.mpr ⟨ownerPlain, fun user listed => ?_⟩
      exact usersPlain user (List.mem_of_mem_filter listed)

section Rows

variable
  {machine : Machine}
  (plainTimes : machine.PlainTimes)
  {file : FileMetadata}
  (storable : file.Storable)

include plainTimes storable

theorem isRow_viewRow (requestDetails : Bool) :
    IsRow "OK_VIEW_L" 2 (viewRow machine requestDetails file) := by
  have name := storable.fits_filename
  unfold viewRow
  split
  · refine IsRow.mono (isRow_of_fits ?_ (by decide) ?_) ?_
    · simp
    · simp only [List.forall_mem_cons, List.not_mem_nil, false_implies,
        implies_true, and_true]
      exact ⟨name, storable.fits_owner,
        fitsField_snprintf (plainField_decimal _) (by decide),
        fitsField_snprintf (plainField_decimal _) (by decide),
        fitsField_snprintf (plain_timeText plainTimes _) (by decide),
        fitsField_snprintf (plain_timeText plainTimes _) (by decide)⟩
    · simp
  · refine IsRow.mono (isRow_of_fits ?_ (by decide) ?_) ?_
    · simp
    · simpa using name
    · simp

/-- Every line of `INFO` is cut to a field. -/
theorem fits_infoLines :
    ∀ line ∈ infoLines machine file, FitsField line := by
  have owner := storable.fits_owner.1
  have modifier := plain_user storable.lastModifiedUser_valid
  have reader := plain_user storable.lastAccessUser_valid
  have stamp :
      ∀ time, PlainField (safeStrcpy (timeText machine time) 64) :=
    fun time =>
      (plain_timeText plainTimes time).sublist (List.take_sublist _ _)
  have acl :
      ∀ users, UserList users → PlainField (aclText file.owner users) :=
    fun users list =>
      plain_aclText owner fun user listed =>
        plainField_of_validateUsername (list.valid user listed)
  intro line member
  rw [infoLines, List.mem_map] at member
  obtain ⟨text, listed, rfl⟩ := member
  refine fitsField_snprintf ?_ (by decide)
  simp only [List.mem_cons, List.not_mem_nil, or_false] at listed
  rcases listed with
    rfl | rfl | rfl | rfl | rfl | rfl | rfl | rfl
  · exact PlainField.append (by decide) (plain_orNone owner)
  · exact (PlainField.append (by decide) (plainField_decimal _)).append
      (by decide)
  · exact PlainField.append (by decide) (plainField_decimal _)
  · exact PlainField.append (by decide) (plainField_decimal _)
  · exact PlainField.append (by decide) (stamp _)
  · exact ((PlainField.append (by decide) (stamp _)).append
      (by decide)).append (plain_orNone modifier)
  · exact ((PlainField.append (by decide) (stamp _)).append
      (by decide)).append (plain_orNone reader)
  · exact (((PlainField.append (by decide) (acl _ storable.readers)).append
      (by decide)).append (acl _ storable.writers)).append (by decide)

theorem infoStream_infoMessages :
    InfoStream (infoMessages machine file) := by
  refine ⟨file.filename, (infoLines machine file).map orNone, ?_, ?_, ?_⟩
  · rw [infoMessages, List.map_map]
    rfl
  · exact ⟨storable.plain_filename,
      nonempty_of_validateFilename storable.filename_valid,
      file.filename_short⟩
  · intro line member
    obtain ⟨text, listed, rfl⟩ := List.mem_map.mp member
    exact fits_orNone (fits_infoLines plainTimes storable text listed)

end Rows

theorem isRow_requestRow
    {req : AccessRequest}
    (storable : RequestStorable (partiesOf req)) :
    IsRow "OK_REQUEST_LIST" 5 (requestRow req) := by
  obtain ⟨⟨valid, oneLine⟩, fromValid, -⟩ := storable
  have fileShort := length_of_validateFilename valid
  have userShort := (validateUsername_iff.mp fromValid).2.1
  rw [maxFilenameLength] at fileShort
  rw [maxUsernameLength] at userShort
  have name : FitsField req.filename := by
    refine ⟨⟨fun member => ?_, oneLine⟩, ?_⟩
    · simp only [validateFilename, Bool.and_eq_true, List.all_eq_true]
        at valid
      exact absurd (valid.2 _ member) (by decide)
    · rw [maxFieldSize]
      omega
  have user : FitsField req.fromUser := by
    refine ⟨plainField_of_validateUsername fromValid, ?_⟩
    rw [maxFieldSize]
    omega
  have perm : FitsField (permText req) := by
    unfold permText
    split
    · decide
    · split <;> decide
  unfold requestRow
  refine IsRow.mono (isRow_of_fits ?_ (by decide) ?_) ?_
  · simp
  · simp only [List.forall_mem_cons, List.not_mem_nil, false_implies,
      implies_true, and_true]
    exact ⟨fitsField_snprintf (plainField_decimal _) (by decide), name, user,
      perm⟩
  · simp

/-! ## The output of a shell -/

section Pieces

variable
  {α : Type}
  {endsLine : α → Bool}
  {limit : Nat}

/-- A piece fits the buffer and ends a line at its end only. -/
theorem piece_of_mem_piecesFrom
    {begun text piece : List α}
    (short : begun.length < limit)
    (oneLine : ∀ c ∈ begun, endsLine c = false)
    (listed : piece ∈ piecesFrom endsLine limit begun text) :
    piece.length ≤ limit ∧ ∀ c ∈ piece.dropLast, endsLine c = false := by
  induction text generalizing begun with
  | nil =>
      rw [piecesFrom] at listed
      split at listed
      · cases listed
      · obtain rfl := List.mem_singleton.mp listed
        exact ⟨short.le, fun c member =>
          oneLine c (List.mem_of_mem_dropLast member)⟩
  | cons c rest inductionHypothesis =>
      rw [piecesFrom] at listed
      split at listed
      · rcases List.mem_cons.mp listed with rfl | later
        · rw [List.length_append, List.length_singleton,
            List.dropLast_concat]
          exact ⟨short, oneLine⟩
        · exact inductionHypothesis (by simp; omega) (by simp) later
      · next goesOn =>
        rw [Bool.or_eq_true, decide_eq_true_eq, not_or, Bool.not_eq_true]
          at goesOn
        refine inductionHypothesis ?_ ?_ listed
        · rw [List.length_append, List.length_singleton]
          omega
        · intro d member
          rcases List.mem_append.mp member with old | new
          · exact oneLine d old
          · exact List.mem_singleton.mp new ▸ goesOn.1

end Pieces

theorem dropLast_sublist
    {α : Type}
    {part whole : List α}
    (isPart : part.Sublist whole) :
    part.dropLast.Sublist whole.dropLast := by
  have backwards := isPart.reverse.tail
  rwa [List.tail_reverse, List.tail_reverse, List.reverse_sublist]
    at backwards

/-- The string is what stands before the first NUL. -/
theorem rawBytes_cString_sublist (bytes : RawBytes) :
    (rawBytes (cString bytes)).Sublist bytes := by
  induction bytes with
  | nil =>
      exact List.Sublist.refl []
  | cons byte rest inductionHypothesis =>
      rw [cString]
      split
      · exact inductionHypothesis.cons_cons byte
      · exact List.nil_sublist _

/-- A line break that only ends a text is trimmed away. -/
theorem newline_not_mem_trimString
    {text : CString}
    (oneLine : newline ∉ text.dropLast) :
    newline ∉ trimString text := by
  intro member
  have part := dropLast_sublist (trimString_sublist text)
  rcases List.eq_nil_or_concat (trimString text) with none | ⟨front, last, same⟩
  · rw [none] at member
    cases member
  · rw [List.concat_eq_append] at same
    rw [same, List.dropLast_concat] at part
    rw [same, List.mem_append] at member
    rcases member with inside | atEnd
    · exact oneLine (part.subset inside)
    · have solid := (solidEnds_trimString text).2 last (by simp [same])
      rw [← List.mem_singleton.mp atEnd] at solid
      exact absurd solid (by decide)

/-- `fgets` and `trim_string` leave one line that fits a field. -/
theorem line_of_mem_execLines
    {output : RawBytes}
    {line : CString}
    (listed : line ∈ execLines output) :
    newline ∉ line ∧ line.length ≤ maxFieldSize := by
  obtain ⟨piece, isPiece, rfl⟩ := List.mem_map.mp listed
  obtain ⟨short, oneLine⟩ :=
    piece_of_mem_piecesFrom (by decide) (by simp) isPiece
  have part := rawBytes_cString_sublist piece
  constructor
  · refine newline_not_mem_trimString fun member => ?_
    have inPiece : newline.val ∈ piece.dropLast := by
      refine (dropLast_sublist part).subset ?_
      rw [rawBytes, ← List.map_dropLast]
      exact List.mem_map_of_mem member
    exact absurd (oneLine _ inPiece) (by decide)
  · calc
      (trimString (cString piece)).length ≤ (cString piece).length :=
        (trimString_sublist _).length_le
      _ = (rawBytes (cString piece)).length := by
        rw [rawBytes, List.length_map]
      _ ≤ piece.length := part.length_le
      _ ≤ maxFieldSize := by
        rw [maxFieldSize] at short ⊢
        omega

/-! ## The listings -/

/-- The stream a listing is replied to with. -/
def NsListing.Stream : NsListing → List (List CString) → Prop
  | .view _ => RowStream "OK_VIEW_L" "OK_VIEW_END" 2
  | .viewFolder _ => RowStream "OK_VIEWFOLDER" "OK_VIEWFOLDER_END" 2
  | .info _ => InfoStream
  | .exec _ => ExecStream
  | .listRequests => RowStream "OK_REQUEST_LIST" "OK_REQUEST_LIST_END" 5

/-- `LIST_USERS` prints users who have logged in. -/
theorem rowStream_listUsers
    {clients : List ClientInfo}
    (valid : ∀ client ∈ clients, validateUsername client.username = true) :
    RowStream "OK_LIST" "OK_LIST_END" 2 (listUsers clients) := by
  refine rowStream_of_map fun client listed => ?_
  have user := plainField_of_validateUsername (valid client listed)
  have status :
      PlainField
        (str (if client.isConnected then "Online" else "Offline")) := by
    split <;> decide
  refine IsRow.mono (isRow_of_fits ?_ (by decide) ?_) ?_
  · simp
  · simp only [List.forall_mem_cons, List.not_mem_nil, false_implies,
      implies_true, and_true]
    refine fitsField_snprintf ?_ (by decide)
    exact ((user.append (by decide)).append status).append (by decide)
  · simp

section Handlers

variable
  {World : Type}
  {machine : Machine}
  (plainTimes : machine.PlainTimes)

/-- Rows are made of entries of the table. -/
theorem tells_entries (selects : FileMetadata → Bool) :
    Tells (FieldsWired : NsState World → Prop)
      (fun files : List FileMetadata => ∀ file ∈ files, file.Storable)
      (readNs fun ns => ns.files.filter selects) :=
  .read fun _ holds file listed =>
    holds.entries file (List.mem_of_mem_filter listed)

theorem yields_handleViewFolder (msg : List CString) :
    Yields FieldsWired
      (fun messages _ =>
        RowStream "OK_VIEWFOLDER" "OK_VIEWFOLDER_END" 2 messages)
      Refusal.Plain (handleViewFolder msg : NsHandler World _) := by
  unfold handleViewFolder
  split
  · split
    · have folder :
          ∀ name,
            Yields FieldsWired (fun _ => FieldsWired) Refusal.Plain
              (ensureFolder name "Folder not found."
                "Requested path is not a folder." : NsHandler World Unit) :=
        fun name =>
          Yields.mono
            (tells_ensureFolder steady_fieldsWired (by decide) (by decide))
            (fun _ => id) fun _ _ => And.right
      refine Yields.optional (folder _) ?_
      refine Tells.andThen (tells_entries _) fun files storable =>
        Talks.anywhere (.pure (rowStream_of_map fun file member => ?_))
      refine IsRow.mono (isRow_of_fits ?_ (by decide) ?_) ?_
      · simp
      · simpa using (storable file member).fits_filename
      · simp
    · exact Talks.anywhere (.refuse (by decide))
  · exact Talks.anywhere (.refuse (by decide))

theorem yields_handleListRequests (username : CString) :
    Yields FieldsWired
      (fun messages _ =>
        RowStream "OK_REQUEST_LIST" "OK_REQUEST_LIST_END" 5 messages)
      Refusal.Plain (handleListRequests username : NsHandler World _) := by
  unfold handleListRequests
  have found :
      Tells (FieldsWired : NsState World → Prop)
        (fun requests : List AccessRequest =>
          ∀ req ∈ requests, RequestStorable (partiesOf req))
        (readNs (requestsFor username)) :=
    .read fun _ holds req listed =>
      holds.requests _
        (List.mem_map_of_mem (List.mem_of_mem_filter listed))
  exact Tells.andThen found fun requests storable =>
    Talks.anywhere
      (.pure (rowStream_of_map fun req listed =>
        isRow_requestRow (storable req listed)))

include plainTimes

theorem yields_handleView
    (username : CString)
    (msg : List CString) :
    Yields FieldsWired
      (fun messages _ => RowStream "OK_VIEW_L" "OK_VIEW_END" 2 messages)
      Refusal.Plain
      (handleView machine username msg : NsHandler World _) := by
  unfold handleView
  split
  · refine Tells.andThen (.ensure (by decide)) fun _ _ => ?_
    refine Tells.andThen (tells_entries _) fun files storable => ?_
    exact Talks.anywhere
      (.pure (rowStream_of_map fun file listed =>
        isRow_viewRow plainTimes (storable file listed) _))
  · exact Talks.anywhere (.refuse (by decide))

theorem yields_handleInfo
    (username : CString)
    (msg : List CString) :
    Yields FieldsWired (fun messages _ => InfoStream messages) Refusal.Plain
      (handleInfo machine username msg : NsHandler World _) := by
  unfold handleInfo
  split
  · refine Tells.andThen (.ensure (by decide)) fun _ _ => ?_
    refine Tells.andThen (.ensure (by decide)) fun _ _ => ?_
    refine Tells.andThen (tells_lookup _) fun found storable => ?_
    split
    · next index file =>
      refine Tells.andThen (.ensure (by decide)) fun _ _ => ?_
      exact Talks.anywhere
        (.pure (infoStream_infoMessages plainTimes (storable index file rfl)))
    · exact Talks.anywhere (.refuse (by decide))
  · exact Talks.anywhere (.refuse (by decide))

end Handlers

section Exec

variable
  {World : Type}
  {backend : Backend World}
  (plainly : ∀ address fields world,
    PlainAnswer fields (backend address fields world).1)

theorem talks_execStart
    (now : Int)
    (username filename : CString) :
    Talks (fun _ => True)
      (execStart now username filename : NsHandler World FileMetadata) := by
  unfold execStart
  refine .bind (.ensure (by decide)) fun _ _ => ?_
  refine .bind (.ensure (by decide)) fun _ _ => ?_
  refine .andThen (.lookup _) fun found => ?_
  split
  · refine .bind (.ensure (by decide)) fun _ _ => ?_
    exact .andThen (.change _) fun _ => .pure trivial
  · exact .refuse (by decide)

include plainly

theorem talks_execContent (file : FileMetadata) :
    Talks (fun _ => True) (execContent backend file) := by
  unfold execContent
  refine .andThen (.read _) fun home => ?_
  split
  · refine .bind (.sendAndWait plainly _ _) fun answer plain => ?_
    split
    · exact .refuse (by decide)
    · exact .refuse (by decide)
    · exact .refuse (by decide)
    · split
      · next isError => exact .throw (plain.refusal isError)
      · split
        · exact .bind (.ensure (by decide)) fun _ _ => .pure trivial
        · exact .refuse (by decide)
  · exact .refuse (by decide)

theorem talks_handleExecStream
    (machine : Machine)
    (now : Int)
    (username : CString)
    (msg : List CString) :
    Talks ExecStream (handleExecStream backend machine now username msg) := by
  unfold handleExecStream
  split
  · refine .andThen (talks_execStart now username _) fun file => ?_
    refine .andThen (talks_execContent plainly file) fun content => ?_
    split
    · next output _ =>
      exact .pure ⟨execLines output, rfl, fun _ => line_of_mem_execLines⟩
    · exact .refuse (by decide)
  · exact .refuse (by decide)

/-- The reply to a listing is its stream, or an error. -/
theorem yields_listing
    {machine : Machine}
    (plainTimes : machine.PlainTimes)
    (now : Int)
    (username : CString)
    (listing : NsListing) :
    Yields FieldsWired (fun messages _ => listing.Stream messages)
      Refusal.Plain (listing.handler backend machine now username) := by
  cases listing with
  | view msg => exact yields_handleView plainTimes username msg
  | viewFolder msg => exact yields_handleViewFolder msg
  | info msg => exact yields_handleInfo plainTimes username msg
  | exec msg =>
      exact Talks.anywhere
        (talks_handleExecStream plainly machine now username msg)
  | listRequests => exact yields_handleListRequests username

end Exec

/-! ## Listings keep the registry in order -/

/-- A program after which the table and the requests are as wired as before. -/
def KeepsWired {World : Type} (before after : NsState World) : Prop :=
  FieldsWired before ∧ TableFits before.ns →
    FieldsWired after ∧ TableFits after.ns

section Keeping

variable {World : Type}

theorem isEffect_keepsWired :
    IsEffect (KeepsWired : NsState World → NsState World → Prop) where
  refl _ := id
  trans first second := second ∘ first

theorem keepsWired_of_onlyCache
    {before after : NsState World}
    (only : OnlyCacheChanged before.ns after.ns) :
    KeepsWired before after :=
  fun wired =>
    ⟨wired.1.of_onlyCache only, steady_tableFits before after only wired.2⟩

namespace KeepsWired

variable {α : Type}

theorem ensure
    (condition : Bool)
    (code : Int)
    (text : String) :
    StaysWithin KeepsWired
      (nsEnsure condition code text : NsHandler World Unit) := by
  unfold nsEnsure
  split
  · exact .pure isEffect_keepsWired _
  · exact .throw isEffect_keepsWired _

theorem read (look : NameServer → α) :
    StaysWithin KeepsWired (readNs look : NsHandler World α) :=
  fun _ => id

theorem lookup (filename : CString) :
    StaysWithin KeepsWired
      (lookupMetadata filename : NsHandler World _) := by
  have looks :
      StaysWithin KeepsWired
        (onNs (fileLookupLocked filename) : NsHandler World _) :=
    fun state =>
      keepsWired_of_onlyCache
        (onlyCacheChanged_fileLookupLocked filename state.ns)
  refine .bind isEffect_keepsWired looks fun found => ?_
  cases found with
  | none => exact .pure isEffect_keepsWired _
  | some index => exact read _

/-- A step made only under a condition. -/
theorem optional
    {condition : Prop}
    [Decidable condition]
    {step : NsHandler World PUnit}
    {next : PUnit → NsHandler World α}
    (first : StaysWithin KeepsWired step)
    (second : StaysWithin KeepsWired (next PUnit.unit)) :
    StaysWithin KeepsWired
      (if condition then step >>= next else next PUnit.unit) := by
  split
  · exact .bind isEffect_keepsWired first fun _ => second
  · exact second

theorem ensureFolder
    (folder : CString)
    (missing notFolder : String) :
    StaysWithin KeepsWired
      (DistributedDocs.ensureFolder folder missing notFolder :
        NsHandler World Unit) := by
  unfold DistributedDocs.ensureFolder
  refine .bind isEffect_keepsWired (lookup folder) fun found => ?_
  split
  · exact ensure _ _ _
  · exact .throw isEffect_keepsWired _

/-- Stamping an entry keeps it as it can be stored. -/
theorem accessed
    {now : Int}
    {username : CString}
    (timeOk : FitsLongLong now)
    (userOk : validateUsername username = true)
    (index : Nat) :
    StaysWithin KeepsWired
      (changeNs (changeFile index (accessedMetadata now username)) :
        NsHandler World Unit) :=
  fun state wired =>
    ⟨wired.1.changeFile (fun _ => storable_accessed timeOk userOk) index,
      wired.2.of_length (length_changeFile index _ state.ns)⟩

theorem sameRegistry
    {program : NsHandler World α}
    (same : StaysWithin SameRegistry program) :
    StaysWithin KeepsWired program := by
  intro state wired
  have unchanged := same state
  rw [SameRegistry] at unchanged
  unfold FieldsWired
  rw [unchanged]
  exact wired

end KeepsWired

variable
  (backend : Backend World)
  (machine : Machine)
  {now : Int}
  {username : CString}
  (timeOk : FitsLongLong now)
  (userOk : validateUsername username = true)

include timeOk userOk

theorem keepsWired_execStart (filename : CString) :
    StaysWithin KeepsWired
      (execStart now username filename : NsHandler World FileMetadata) := by
  have isEffect : IsEffect (σ := NsState World) KeepsWired :=
    isEffect_keepsWired
  unfold execStart
  refine .bind isEffect (KeepsWired.ensure _ _ _) fun _ => ?_
  refine .bind isEffect (KeepsWired.ensure _ _ _) fun _ => ?_
  refine .bind isEffect (KeepsWired.lookup _) fun found => ?_
  split
  · refine .bind isEffect (KeepsWired.ensure _ _ _) fun _ => ?_
    exact .bind isEffect (KeepsWired.accessed timeOk userOk _) fun _ =>
      .pure isEffect _
  · exact .throw isEffect _

theorem keepsWired_listing (listing : NsListing) :
    StaysWithin KeepsWired
      (listing.handler backend machine now username) := by
  have isEffect : IsEffect (σ := NsState World) KeepsWired :=
    isEffect_keepsWired
  cases listing with
  | view msg =>
      simp only [NsListing.handler]
      unfold handleView
      split
      · refine .bind isEffect (KeepsWired.ensure _ _ _) fun _ => ?_
        exact .bind isEffect (KeepsWired.read _) fun _ => .pure isEffect _
      · exact .throw isEffect _
  | viewFolder msg =>
      simp only [NsListing.handler]
      unfold handleViewFolder
      split
      · split
        · refine KeepsWired.optional (KeepsWired.ensureFolder _ _ _) ?_
          exact .bind isEffect (KeepsWired.read _) fun _ => .pure isEffect _
        · exact .throw isEffect _
      · exact .throw isEffect _
  | info msg =>
      simp only [NsListing.handler]
      unfold handleInfo
      split
      · refine .bind isEffect (KeepsWired.ensure _ _ _) fun _ => ?_
        refine .bind isEffect (KeepsWired.ensure _ _ _) fun _ => ?_
        refine .bind isEffect (KeepsWired.lookup _) fun found => ?_
        split
        · exact .bind isEffect (KeepsWired.ensure _ _ _) fun _ => .pure isEffect _
        · exact .throw isEffect _
      · exact .throw isEffect _
  | exec msg =>
      simp only [NsListing.handler]
      unfold handleExecStream
      split
      · refine .bind isEffect (keepsWired_execStart timeOk userOk _)
          fun file => ?_
        refine .bind isEffect
          (KeepsWired.sameRegistry (sameRegistry_execContent backend file))
          fun content => ?_
        split
        · exact .pure isEffect _
        · exact .throw isEffect _
      · exact .throw isEffect _
  | listRequests =>
      simp only [NsListing.handler]
      unfold handleListRequests
      exact .bind isEffect (KeepsWired.read _) fun _ => .pure isEffect _

/-- A listing leaves the registry in order. -/
theorem Orderly.listing
    {state : NsState World}
    (orderly : Orderly state.ns)
    (listing : NsListing) :
    Orderly
      (eventStep backend machine state (.lists now username listing)).ns := by
  have kept :=
    keepsWired_listing backend machine timeOk userOk listing state
      ⟨orderly.fields, orderly.fits⟩
  have twins : Twins state state :=
    ⟨.refl state.ns, rfl, orderly.registry, orderly.registry⟩
  have after := (twins.event backend machine (.lists now username listing)).2
  exact ⟨after.registry, kept.1, kept.2⟩

end Keeping

/-- What the outside does keeps the registry in order. -/
theorem Orderly.action
    {World : Type}
    {backend : Backend World}
    {state : NsState World}
    (orderly : Orderly state.ns)
    {action : NsAction World}
    (allowed : wireRules.Allows action) :
    Orderly (nsStep backend state action).ns where
  registry := orderly.registry.nsStep action
  fields := orderly.fields.nsStep survive_storable orderly.registry allowed
  fits := orderly.fits.nsStep orderly.registry action

end DistributedDocs
