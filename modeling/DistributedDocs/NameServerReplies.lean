import DistributedDocs.NameServerListings
import DistributedDocs.OutcomeRules
import DistributedDocs.Registration
import DistributedDocs.RegistryRestart

namespace DistributedDocs

/-!
# What the name server replies

Whatever a client sends, the name server replies with an error, with one
message or with a stream that has an end, and every message of it arrives as it
was sent.
-/

/-! ## Fields that fit -/

/-- A field that fits a message with others. -/
def FitsField (field : CString) : Prop :=
  PlainField field ∧ field.length ≤ maxFieldSize

instance (field : CString) : Decidable (FitsField field) :=
  inferInstanceAs (Decidable (_ ∧ _))

/-- A few such fields make a message. -/
theorem deliverable_of_fits
    {fields : List CString}
    (nonempty : fields ≠ [])
    (few : fields.length ≤ 15)
    (fits : ∀ field ∈ fields, FitsField field) :
    Deliverable fields where
  nonempty := nonempty
  plain field listed := (fits field listed).1
  few := few.trans (by decide)
  short := by
    have joined := length_intercalate_add_one protocolDelimiter nonempty
    have room : roomFor fields ≤ fields.length * 4097 :=
      roomFor_le fun field listed =>
        Nat.lt_succ_of_le (fits field listed).2
    have most : fields.length * 4097 ≤ 15 * 4097 :=
      Nat.mul_le_mul_right 4097 few
    rw [TooLong, maxMessageSize]
    omega

theorem PlainField.append
    {first second : CString}
    (firstPlain : PlainField first)
    (secondPlain : PlainField second) :
    PlainField (first ++ second) := by
  simp only [PlainField, List.mem_append, not_or] at *
  exact ⟨⟨firstPlain.1, secondPlain.1⟩, firstPlain.2, secondPlain.2⟩

theorem PlainField.sublist
    {part field : CString}
    (plain : PlainField field)
    (isPart : part.Sublist field) :
    PlainField part :=
  ⟨fun member => plain.1 (isPart.subset member),
    fun member => plain.2 (isPart.subset member)⟩

/-- What `snprintf` and `safe_strcpy` keep of a plain text. -/
theorem fitsField_take
    {text : CString}
    (plain : PlainField text)
    {size : Nat}
    (small : size ≤ maxFieldSize + 1) :
    FitsField (text.take (size - 1)) := by
  refine ⟨plain.sublist (List.take_sublist _ _), ?_⟩
  have bound := List.length_take_le (size - 1) text
  omega

theorem fitsField_decimal
    {n : Int}
    (fits : FitsInt n) :
    FitsField (decimal n) := by
  have wide : FitsLongLong n := by
    unfold FitsInt at fits
    unfold FitsLongLong
    omega
  refine ⟨plainField_decimal n, (length_decimal_le wide).trans ?_⟩
  decide

namespace FileMetadata.Storable

variable {file : FileMetadata}

theorem plain_filename (storable : file.Storable) :
    PlainField file.filename := by
  refine ⟨fun member => ?_, storable.filename_oneLine⟩
  have valid := storable.filename_valid
  simp only [validateFilename, Bool.and_eq_true, List.all_eq_true] at valid
  exact absurd (valid.2 _ member) (by decide)

theorem fits_filename (storable : file.Storable) :
    FitsField file.filename := by
  refine ⟨storable.plain_filename, ?_⟩
  have short := file.filename_short
  rw [maxFilenameLength] at short
  rw [maxFieldSize]
  omega

theorem fits_owner (storable : file.Storable) :
    FitsField file.owner := by
  rcases storable.owner_valid with none | valid
  · rw [none]
    exact ⟨⟨by simp, by simp⟩, Nat.zero_le _⟩
  · have short := (validateUsername_iff.mp valid).2.1
    rw [maxUsernameLength] at short
    refine ⟨plainField_of_validateUsername valid, ?_⟩
    rw [maxFieldSize]
    omega

theorem fits_ssIp (storable : file.Storable) :
    FitsField file.ssIp := by
  have short := storable.ssIp_short
  rw [maxIpLength] at short
  refine ⟨⟨fun member => (storable.ssIp_plain _ member).1 rfl,
    fun member => (storable.ssIp_plain _ member).2 rfl⟩, ?_⟩
  rw [maxFieldSize]
  omega

end FileMetadata.Storable

/-! ## Errors -/

/-- An error whose text is plain and short, with a code that is an `int`. -/
def Refusal.Plain (refusal : Refusal) : Prop :=
  FitsField refusal.text ∧ FitsInt refusal.code

instance (refusal : Refusal) : Decidable refusal.Plain :=
  inferInstanceAs (Decidable (_ ∧ _ ≤ _ ∧ _ ≤ _))

theorem Refusal.Plain.deliverable
    {refusal : Refusal}
    (plain : refusal.Plain) :
    Deliverable refusal.fields := by
  refine deliverable_of_fits (List.cons_ne_nil _ _) (by simp [fields]) ?_
  simp only [fields, List.forall_mem_cons, List.not_mem_nil, false_implies,
    implies_true, and_true]
  exact ⟨by decide, fitsField_decimal plain.2, plain.1⟩

/--
Storage servers answer errors as they were built, and copies with a message
that can be handed on.
-/
def PlainAnswer (request : List CString) : SsAnswer → Prop
  | .failed _ =>
      True
  | .unparsable =>
      False
  | .message fields =>
      (fields.head? = some (str "ERR") →
          ∃ refusal : Refusal, refusal.Plain ∧ fields = refusal.fields) ∧
        (request.head? = some (str "SS_COPY") → Deliverable fields)

theorem errorCode_fields
    {refusal : Refusal}
    (plain : refusal.Plain) :
    errorCode refusal.fields = refusal.code :=
  atoi_decimal plain.2

/-- An error of a storage server is handed on as it is. -/
theorem PlainAnswer.refusal
    {request : List CString}
    {type : CString}
    {arguments : List CString}
    (plain : PlainAnswer request (.message (type :: arguments)))
    (isError : type = str "ERR") :
    Refusal.Plain
      ⟨errorCode (type :: arguments), errorDetail (type :: arguments)⟩ := by
  obtain ⟨refusal, isPlain, same⟩ := plain.1 (congrArg some isError)
  rw [same, errorCode_fields isPlain]
  exact isPlain

/-- Every status has a text. -/
theorem plain_statusDetail (status : Int) :
    Refusal.Plain ⟨errInternalError, statusDetail status⟩ := by
  unfold statusDetail
  split
  · decide
  · split
    · decide
    · split
      · decide
      · split
        · decide
        · split <;> decide

/-- The refusal of a program that failed, if it did, is plain. -/
def PlainFailure (failure : Option Refusal) : Prop :=
  ∀ refusal, failure = some refusal → refusal.Plain

theorem plainFailure_none : PlainFailure none := by
  intro _ absent
  cases absent

theorem plainFailure_some
    {refusal : Refusal}
    (plain : refusal.Plain) :
    PlainFailure (some refusal) := by
  intro _ same
  exact Option.some.inj same ▸ plain

theorem plain_answerFailure
    {expected malformed unexpected : String}
    (malformedPlain :
      Refusal.Plain ⟨errInternalError, str malformed⟩)
    (unexpectedPlain :
      Refusal.Plain ⟨errInternalError, str unexpected⟩)
    {request : List CString}
    {answer : SsAnswer}
    (plain : PlainAnswer request answer) :
    PlainFailure (answerFailure expected malformed unexpected answer) := by
  unfold answerFailure
  split
  · exact plainFailure_some (plain_statusDetail _)
  · exact plain.elim
  · exact plainFailure_some malformedPlain
  · split
    · next isError => exact plainFailure_some (plain.refusal isError)
    · split
      · exact plainFailure_none
      · exact plainFailure_some unexpectedPlain

theorem plain_renameFailure
    {request : List CString}
    {answer : SsAnswer}
    (plain : PlainAnswer request answer) :
    PlainFailure (renameFailure answer) := by
  unfold renameFailure
  split
  · exact plainFailure_some (by decide)
  · exact plain.elim
  · exact plainFailure_some (by decide)
  · split
    · next isError =>
      split
      · exact plainFailure_none
      · exact plainFailure_some (plain.refusal isError)
    · split
      · exact plainFailure_none
      · exact plainFailure_some (by decide)

theorem plain_deleteFailure
    {request : List CString}
    {answer : SsAnswer}
    (plain : PlainAnswer request answer) :
    PlainFailure (deleteFailure answer) := by
  intro refusal failure
  obtain ⟨original, failed, rfl⟩ := Option.map_eq_some_iff.mp failure
  have isPlain : original.Plain :=
    plain_answerFailure (by decide) (by decide) plain original failed
  split
  · have fits : FitsInt errInternalError := ⟨by decide, by decide⟩
    exact ⟨isPlain.1, fits⟩
  · exact isPlain

/-! ## Programs that reply plainly -/

section Talking

variable
  {σ World : Type}
  {α β : Type}

/-- What the program returns has the property, and its errors are plain. -/
def Talks (property : α → Prop) (program : EStateM Refusal σ α) : Prop :=
  Yields (fun _ => True) (fun value _ => property value) Refusal.Plain program

namespace Talks

variable {property : α → Prop}

theorem pure
    {value : α}
    (holds : property value) :
    Talks property (Pure.pure value : EStateM Refusal σ α) :=
  Yields.pure fun _ _ => holds

theorem throw
    {refusal : Refusal}
    (plain : refusal.Plain) :
    Talks property (MonadExcept.throw refusal : EStateM Refusal σ α) :=
  Yields.throw plain

theorem refuse
    {code : Int}
    {text : String}
    (plain : Refusal.Plain ⟨code, str text⟩) :
    Talks property (nsRefuse code text : NsHandler World α) :=
  throw plain

theorem bind
    {property : β → Prop}
    {found : α → Prop}
    {program : EStateM Refusal σ α}
    {next : α → EStateM Refusal σ β}
    (first : Talks found program)
    (second : ∀ value, found value → Talks property (next value)) :
    Talks property (program >>= next) :=
  Yields.bind first fun value state holds => second value holds state trivial

/-- A step whose value does not matter. -/
theorem andThen
    {property : β → Prop}
    {program : EStateM Refusal σ α}
    {next : α → EStateM Refusal σ β}
    (first : Talks (fun _ => True) program)
    (second : ∀ value, Talks property (next value)) :
    Talks property (program >>= next) :=
  bind first fun value _ => second value

theorem ensure
    {condition : Bool}
    {code : Int}
    {text : String}
    (plain : Refusal.Plain ⟨code, str text⟩) :
    Talks (fun _ => condition = true)
      (nsEnsure condition code text : NsHandler World Unit) := by
  unfold nsEnsure
  split
  · next holds =>
    exact pure holds
  · exact refuse plain

theorem operate (operation : NameServer → α × NameServer) :
    Talks (fun _ => True) (onNs operation : NsHandler World α) :=
  fun _ _ => trivial

theorem read (look : NameServer → α) :
    Talks (fun _ => True) (readNs look : NsHandler World α) :=
  fun _ _ => trivial

theorem change (change : NameServer → NameServer) :
    Talks (fun _ => True) (changeNs change : NsHandler World Unit) :=
  fun _ _ => trivial

theorem lookup (filename : CString) :
    Talks (fun _ => True) (lookupMetadata filename : NsHandler World _) := by
  refine andThen (operate _) fun found => ?_
  cases found with
  | none => exact pure trivial
  | some index => exact read _

/-- A step made only under a condition. -/
theorem optional
    {property : β → Prop}
    {condition : Prop}
    [Decidable condition]
    {step : EStateM Refusal σ PUnit}
    {next : PUnit → EStateM Refusal σ β}
    (first : Talks (fun _ => True) step)
    (second : Talks property (next PUnit.unit)) :
    Talks property
      (if condition then step >>= next else next PUnit.unit) := by
  split
  · exact andThen first fun _ => second
  · exact second

theorem sendAndWait
    {backend : Backend World}
    (plainly : ∀ address fields world,
      PlainAnswer fields (backend address fields world).1)
    (address : Nat)
    (fields : List CString) :
    Talks (PlainAnswer fields)
      (DistributedDocs.sendAndWait backend address fields) :=
  fun state _ => plainly address fields state.world

end Talks

/-- A program that only looks keeps what is known of the state. -/
def Tells
    (known : NsState World → Prop)
    (property : α → Prop)
    (program : NsHandler World α) : Prop :=
  Yields known (fun value state => property value ∧ known state)
    Refusal.Plain program

/-- What lookups do not take away. -/
def Steady (known : NsState World → Prop) : Prop :=
  ∀ before after : NsState World,
    OnlyCacheChanged before.ns after.ns → known before → known after

namespace Tells

variable
  {known : NsState World → Prop}
  {property : α → Prop}

theorem ensure
    {condition : Bool}
    {code : Int}
    {text : String}
    (plain : Refusal.Plain ⟨code, str text⟩) :
    Tells known (fun _ => condition = true)
      (nsEnsure condition code text : NsHandler World Unit) := by
  unfold nsEnsure
  split
  · next holds =>
    exact Yields.pure fun _ isKnown => ⟨holds, isKnown⟩
  · exact Yields.throw plain

theorem read
    {look : NameServer → α}
    (tells : ∀ state, known state → property (look state.ns)) :
    Tells known property (readNs look : NsHandler World α) :=
  fun state isKnown => ⟨tells state isKnown, isKnown⟩

/-- A lookup finds an entry of the table. -/
theorem lookup
    {property : FileMetadata → Prop}
    (steady : Steady known)
    (tells : ∀ state, known state → ∀ file ∈ state.ns.files, property file)
    (filename : CString) :
    Tells known
      (fun found => ∀ index file, found = some (index, file) → property file)
      (lookupMetadata filename : NsHandler World _) := by
  have looks :
      Tells known (fun _ => True)
        (onNs (fileLookupLocked filename) : NsHandler World _) :=
    fun state isKnown =>
      ⟨trivial,
        steady state _ (onlyCacheChanged_fileLookupLocked filename state.ns)
          isKnown⟩
  refine Yields.bind looks fun found => ?_
  cases found with
  | none =>
      refine Yields.pure fun state isKnown => ⟨?_, isKnown.2⟩
      intro _ _ absent
      cases absent
  | some index =>
      refine fun state isKnown => ⟨fun position file isEntry => ?_, isKnown.2⟩
      obtain ⟨entry, held, same⟩ := Option.map_eq_some_iff.mp isEntry
      obtain ⟨-, rfl⟩ := Prod.mk.inj same
      exact tells state isKnown.2 _ (List.mem_of_getElem? held)

theorem bind
    {property : β → Prop}
    {found : α → Prop}
    {program : NsHandler World α}
    {next : α → NsHandler World β}
    (first : Tells known found program)
    (second : ∀ value, found value → Tells known property (next value)) :
    Tells known property (program >>= next) :=
  Yields.bind first fun value state holds =>
    second value holds.1 state holds.2

/-- First look, then act on what has been found. -/
theorem andThen
    {property : β → Prop}
    {found : α → Prop}
    {program : NsHandler World α}
    {next : α → NsHandler World β}
    (first : Tells known found program)
    (second :
      ∀ value, found value →
        Yields known (fun reply _ => property reply) Refusal.Plain
          (next value)) :
    Yields known (fun reply _ => property reply) Refusal.Plain
      (program >>= next) :=
  Yields.bind first fun value state holds =>
    second value holds.1 state holds.2

end Tells

section Acting

variable
  {known : NsState World → Prop}
  {program : NsHandler World α}

/-- Where nothing needs to be known of the state. -/
theorem Talks.anywhere
    {property : α → Prop}
    (talks : Talks property program) :
    Yields known (fun value _ => property value) Refusal.Plain program :=
  Yields.mono talks (fun _ _ => trivial) fun _ _ => id

/-- From here on nothing needs to be known of the state. -/
theorem Talks.after
    {found : α → Prop}
    {property : β → Prop}
    {next : α → NsHandler World β}
    (first :
      Yields known (fun value _ => found value) Refusal.Plain program)
    (second : ∀ value, found value → Talks property (next value)) :
    Yields known (fun reply _ => property reply) Refusal.Plain
      (program >>= next) :=
  Yields.bind first fun value state holds =>
    second value holds state trivial

end Acting

end Talking

/-! ## The commands -/

/-- `protocol_build_ok` with a plain text. -/
theorem deliverable_okReply
    {detail : CString}
    (fits : FitsField detail) :
    Deliverable (okReply detail) := by
  refine deliverable_of_fits (List.cons_ne_nil _ _) (by simp [okReply]) ?_
  simp only [okReply, List.forall_mem_cons, List.not_mem_nil, false_implies,
    implies_true, and_true]
  exact ⟨by decide, fits⟩

theorem length_of_strcasecmpEq
    {first second : CString}
    (same : strcasecmpEq first second = true) :
    first.length = second.length := by
  rw [strcasecmpEq, beq_iff_eq] at same
  have lengths := congrArg List.length same
  rwa [List.length_map, List.length_map] at lengths

/-- The permissions that are understood are short. -/
theorem length_of_parsePermissionFlags
    {perm : CString}
    {grants : Bool × Bool}
    (parsed : parsePermissionFlags perm = some grants) :
    perm.length ≤ 9 := by
  have short :
      ∀ names : List String,
        (∀ name ∈ names, (str name).length ≤ 9) →
          (names.any fun name => strcasecmpEq perm (str name)) = true →
            perm.length ≤ 9 := by
    intro names allShort isOne
    obtain ⟨name, listed, same⟩ := List.any_eq_true.mp isOne
    exact (length_of_strcasecmpEq same).trans_le (allShort name listed)
  unfold parsePermissionFlags at parsed
  simp only at parsed
  split at parsed
  · next isOne => exact short _ (by decide) isOne
  · split at parsed
    · next isOne => exact short _ (by decide) isOne
    · split at parsed
      · next isOne => exact short _ (by decide) isOne
      · cases parsed

section Commands

variable
  {World : Type}
  {backend : Backend World}
  (plainly : ∀ address fields world,
    PlainAnswer fields (backend address fields world).1)

theorem tells_ensureFolder
    {known : NsState World → Prop}
    (steady : Steady known)
    {folder : CString}
    {missing notFolder : String}
    (missingPlain : Refusal.Plain ⟨errFileNotFound, str missing⟩)
    (notFolderPlain : Refusal.Plain ⟨errInvalidRequest, str notFolder⟩) :
    Tells known (fun _ => True)
      (ensureFolder folder missing notFolder : NsHandler World Unit) := by
  unfold ensureFolder
  refine .bind (.lookup steady (fun _ _ _ _ => trivial) folder)
    fun found _ => ?_
  split
  · exact Yields.mono (Tells.ensure notFolderPlain) (fun _ => id)
      fun _ _ holds => ⟨trivial, holds.2⟩
  · exact Yields.throw missingPlain

theorem talks_ensureFolder
    {folder : CString}
    {missing notFolder : String}
    (missingPlain : Refusal.Plain ⟨errFileNotFound, str missing⟩)
    (notFolderPlain : Refusal.Plain ⟨errInvalidRequest, str notFolder⟩) :
    Talks (fun _ => True)
      (ensureFolder folder missing notFolder : NsHandler World Unit) :=
  Yields.mono
    (tells_ensureFolder (fun _ _ _ _ => trivial) missingPlain notFolderPlain)
    (fun _ _ => trivial) fun _ _ _ => trivial

theorem talks_createTarget (filename : CString) :
    Talks (fun _ => True)
      (createTarget filename : NsHandler World StorageServerInfo) := by
  unfold createTarget
  refine .andThen (.read _) fun _ => ?_
  refine .bind (.ensure (by decide)) fun _ _ => ?_
  refine .andThen (.lookup filename) fun _ => ?_
  refine .bind (.ensure (by decide)) fun _ _ => ?_
  refine .andThen (.read _) fun _ => ?_
  refine .bind (.ensure (by decide)) fun _ _ => ?_
  refine .andThen (.operate _) fun target => ?_
  split
  · exact .pure trivial
  · exact .refuse (by decide)

theorem talks_handleCreateFolder
    (now : Int)
    (username : CString)
    (msg : List CString) :
    Talks Deliverable
      (handleCreateFolder now username msg : NsHandler World _) := by
  unfold handleCreateFolder
  split
  · refine .bind (.ensure (by decide)) fun _ _ => ?_
    refine .bind (.ensure (by decide)) fun _ _ => ?_
    refine .andThen (.read _) fun _ => ?_
    refine .bind (.ensure (by decide)) fun _ _ => ?_
    refine .andThen (.lookup _) fun _ => ?_
    refine .bind (.ensure (by decide)) fun _ _ => ?_
    split
    · refine .optional (talks_ensureFolder (by decide) (by decide)) ?_
      exact .andThen (.change _) fun _ =>
        .pure (deliverable_okReply (by decide))
    · exact .refuse (by decide)
  · exact .refuse (by decide)

/-- Its usage has a delimiter in it, and would not arrive whole. -/
theorem talks_handleRequestAccess
    (username : CString)
    {msg : List CString}
    (complete : 3 ≤ msg.length) :
    Talks Deliverable
      (handleRequestAccess username msg : NsHandler World _) := by
  unfold handleRequestAccess
  split
  · refine .bind (.ensure (by decide)) fun _ _ => ?_
    split
    · refine .andThen (.lookup _) fun found => ?_
      split
      · refine .andThen (.read _) fun _ => ?_
        refine .bind (.ensure (by decide)) fun _ _ => ?_
        exact .andThen (.change _) fun _ =>
          .pure (deliverable_okReply (by decide))
      · exact .refuse (by decide)
    · exact .refuse (by decide)
  · next short =>
    match msg, complete with
    | type :: filename :: perm :: rest, _ => exact absurd rfl (short _ _ _ _)

theorem talks_handleRejectAccess
    (username : CString)
    (msg : List CString) :
    Talks Deliverable
      (handleRejectAccess username msg : NsHandler World _) := by
  unfold handleRejectAccess
  split
  · refine .andThen (.read _) fun found => ?_
    split
    · exact .andThen (.change _) fun _ =>
        .pure (deliverable_okReply (by decide))
    · exact .refuse (by decide)
  · exact .refuse (by decide)

theorem talks_planRename
    (file : FileMetadata)
    (newPath : CString) :
    Talks (fun _ => True)
      (planRename file newPath : NsHandler World MovePlanEntry) := by
  unfold planRename
  split
  · exact .pure trivial
  · refine .andThen (.read _) fun home => ?_
    split
    · split
      · split
        · exact .pure trivial
        · exact .refuse (by decide)
      · exact .refuse (by decide)
    · exact .refuse (by decide)

theorem talks_planMoveEntry
    (username srcPath finalRoot : CString)
    (file : FileMetadata) :
    Talks (fun _ => True)
      (planMoveEntry username srcPath finalRoot file :
        NsHandler World MovePlanEntry) := by
  unfold planMoveEntry
  refine .bind (.ensure (by decide)) fun _ _ => ?_
  split
  · refine .bind (.ensure (by decide)) fun _ _ => ?_
    refine .andThen (.lookup _) fun _ => ?_
    refine .bind (.ensure (by decide)) fun _ _ => ?_
    exact talks_planRename file _
  · exact .refuse (by decide)

theorem talks_planMoveEntries
    (username srcPath finalRoot : CString)
    (files : List FileMetadata) :
    Talks (fun _ => True)
      (planMoveEntries username srcPath finalRoot files :
        NsHandler World (List MovePlanEntry)) := by
  induction files with
  | nil =>
      exact .pure trivial
  | cons file rest inductionHypothesis =>
      rw [planMoveEntries]
      refine .andThen (talks_planMoveEntry username srcPath finalRoot file)
        fun _ => ?_
      exact .andThen inductionHypothesis fun _ => .pure trivial

theorem talks_planMove (username srcPath destination : CString) :
    Talks (fun _ => True)
      (planMove username srcPath destination :
        NsHandler World (List MovePlanEntry)) := by
  unfold planMove
  refine .andThen (.lookup _) fun found => ?_
  split
  · refine .bind (.ensure (by decide)) fun _ _ => ?_
    split
    · next parentPath baseName isSplit =>
      refine .optional (talks_ensureFolder (by decide) (by decide)) ?_
      simp only
      split
      · next finalRoot isRoot =>
        refine .bind (.ensure (by decide)) fun _ _ => ?_
        refine .bind (.ensure (by decide)) fun _ _ => ?_
        refine .andThen (.read _) fun taken => ?_
        refine .andThen (talks_planMoveEntries username srcPath finalRoot taken)
          fun plan => ?_
        exact .bind (.ensure (by decide)) fun _ _ => .pure trivial
      · exact .refuse (by decide)
    · exact .optional (talks_ensureFolder (by decide) (by decide))
        (.refuse (by decide))
  · exact .refuse (by decide)

theorem talks_planDeleteEntry
    (username : CString)
    (file : FileMetadata) :
    Talks (fun _ => True)
      (planDeleteEntry username file : NsHandler World DeletePlanEntry) := by
  unfold planDeleteEntry
  refine .bind (.ensure (by decide)) fun _ _ => ?_
  split
  · exact .pure trivial
  · refine .andThen (.read _) fun home => ?_
    split
    · exact .pure trivial
    · exact .refuse (by decide)

/-- There are no more plan entries than entries. -/
theorem talks_planDeleteEntries
    (username : CString)
    (files : List FileMetadata) :
    Talks (fun plan => plan.length = files.length)
      (planDeleteEntries username files :
        NsHandler World (List DeletePlanEntry)) := by
  induction files with
  | nil =>
      exact .pure rfl
  | cons file rest inductionHypothesis =>
      rw [planDeleteEntries]
      refine .andThen (talks_planDeleteEntry username file) fun _ => ?_
      refine .bind inductionHypothesis fun plan same => .pure ?_
      rw [List.length_cons, List.length_cons, same]

theorem steady_tableFits :
    Steady fun state : NsState World => TableFits state.ns := by
  intro before after only fits
  rw [TableFits, only.files]
  exact fits

theorem tells_filtered (selects : FileMetadata → Bool) :
    Tells (fun state : NsState World => TableFits state.ns)
      (fun taken : List FileMetadata => taken.length ≤ nsMaxFiles)
      (readNs fun ns => ns.files.filter selects) :=
  .read fun _ fits => (List.length_filter_le _ _).trans fits

/-- No plan has more entries than the table. -/
theorem yields_planDelete (username targetPath : CString) :
    Yields (fun state => TableFits state.ns)
      (fun plan _ => plan.length ≤ nsMaxFiles) Refusal.Plain
      (planDelete username targetPath :
        NsHandler World (List DeletePlanEntry)) := by
  unfold planDelete
  refine Tells.andThen (.lookup steady_tableFits (fun _ _ _ _ => trivial) _)
    fun found _ => ?_
  split
  · refine Tells.andThen (.ensure (by decide)) fun _ _ => ?_
    refine Tells.andThen (tells_filtered _) fun taken few =>
      Talks.anywhere ?_
    refine .bind (talks_planDeleteEntries username taken) fun plan same => ?_
    exact .bind (.ensure (by decide)) fun _ _ => .pure (same.trans_le few)
  · exact Talks.anywhere (.refuse (by decide))

theorem talks_copyEntries (username srcName destName : CString) :
    Talks (fun _ => True)
      (copyEntries username srcName destName : NsHandler World _) := by
  unfold copyEntries
  refine .andThen (.lookup _) fun srcFile => ?_
  refine .andThen (.lookup _) fun destFile => ?_
  split
  · split
    · refine .bind (.ensure (by decide)) fun _ _ => ?_
      exact .bind (.ensure (by decide)) fun _ _ => .pure trivial
    · exact .refuse (by decide)
  · exact .refuse (by decide)

include plainly

theorem talks_createOnStorage
    (target : StorageServerInfo)
    (username filename : CString) :
    Talks PlainFailure
      (createOnStorage backend target username filename) := by
  unfold createOnStorage
  split
  · exact .pure (plainFailure_some (by decide))
  · refine .bind (.sendAndWait plainly _ _) fun answer plain => .pure ?_
    exact plain_answerFailure (by decide) (by decide) plain

/-- A reply that repeats a name in quotes. -/
theorem talks_handleCreate
    (now : Int)
    (username : CString)
    {msg : List CString}
    (plainMsg : ∀ field ∈ msg, PlainField field) :
    Talks Deliverable (handleCreate backend now username msg) := by
  unfold handleCreate
  split
  · next type filename rest =>
    refine .bind (.ensure (by decide)) fun _ valid => ?_
    refine .bind (.ensure (by decide)) fun _ _ => ?_
    refine .andThen (talks_createTarget filename) fun target => ?_
    refine .andThen (.change _) fun _ => ?_
    refine .bind (talks_createOnStorage plainly target username filename)
      fun failure plainFailure => ?_
    split
    · next refusal =>
      refine .andThen (.operate _) fun _ => ?_
      exact .throw (plainFailure refusal rfl)
    · refine .andThen (.change _) fun _ => ?_
      have namePlain : PlainField filename :=
        plainMsg filename (List.mem_cons_of_mem _ List.mem_cons_self)
      have short := length_of_validateFilename valid
      refine .pure (deliverable_okReply ⟨?_, ?_⟩)
      · exact (PlainField.append (by decide) namePlain).append (by decide)
      · have label : (str "File '").length = 6 := by decide
        have suffix : (str "' created successfully.").length = 23 := by
          decide
        rw [maxFilenameLength] at short
        rw [List.length_append, List.length_append, maxFieldSize]
        omega
  · exact .refuse (by decide)

theorem talks_rollbackRenames (done : List MovePlanEntry) :
    Talks (fun _ => True) (rollbackRenames backend done) := by
  induction done with
  | nil =>
      exact .pure trivial
  | cons entry rest inductionHypothesis =>
      unfold rollbackRenames
      split
      · exact .bind (.sendAndWait plainly _ _) fun _ _ => inductionHypothesis
      · exact inductionHypothesis

theorem talks_renameOnStorage (done plan : List MovePlanEntry) :
    Talks (fun _ => True) (renameOnStorage backend done plan) := by
  induction plan generalizing done with
  | nil =>
      exact .pure trivial
  | cons entry rest inductionHypothesis =>
      unfold renameOnStorage
      split
      · exact inductionHypothesis done
      · refine .bind (.sendAndWait plainly _ _) fun answer plain => ?_
        split
        · next refusal failure =>
          refine .andThen (talks_rollbackRenames plainly done) fun _ => ?_
          exact .throw (plain_renameFailure plain refusal failure)
        · exact inductionHypothesis _

theorem talks_deleteOnStorage (plan : List DeletePlanEntry) :
    Talks (fun _ => True) (deleteOnStorage backend plan) := by
  induction plan with
  | nil =>
      exact .pure trivial
  | cons entry rest inductionHypothesis =>
      unfold deleteOnStorage
      split
      · exact inductionHypothesis
      · refine .bind (.sendAndWait plainly _ _) fun answer plain => ?_
        split
        · next refusal failure =>
          exact .throw (plain_deleteFailure plain refusal failure)
        · exact inductionHypothesis

theorem talks_handleMove
    (now : Int)
    (username : CString)
    (msg : List CString) :
    Talks Deliverable (handleMove backend now username msg) := by
  unfold handleMove
  split
  · refine .bind (.ensure (by decide)) fun _ _ => ?_
    refine .bind (.ensure (by decide)) fun _ _ => ?_
    split
    · refine .andThen (talks_planMove username _ _) fun plan => ?_
      refine .andThen (talks_renameOnStorage plainly [] plan) fun _ => ?_
      exact .andThen (.change _) fun _ =>
        .pure (deliverable_okReply (by decide))
    · exact .refuse (by decide)
  · exact .refuse (by decide)

theorem talks_approveOnStorage
    (file : FileMetadata)
    (req : AccessRequest) :
    Talks PlainFailure (approveOnStorage backend file req) := by
  unfold approveOnStorage
  refine .andThen (.read _) fun home => ?_
  split
  · refine .bind (.sendAndWait plainly _ _) fun answer _ => ?_
    split
    · exact .pure (plainFailure_some (by decide))
    · exact .pure (plainFailure_some (by decide))
    · split
      · exact .pure (plainFailure_some (by decide))
      · exact .pure plainFailure_none
    · exact .pure plainFailure_none
  · exact .pure (plainFailure_some (by decide))

theorem talks_accessOnStorage
    (file : FileMetadata)
    (request : List CString) :
    Talks PlainFailure (accessOnStorage backend file request) := by
  unfold accessOnStorage
  refine .andThen (.read _) fun home => ?_
  split
  · refine .bind (.sendAndWait plainly _ _) fun answer plain => .pure ?_
    exact plain_answerFailure (by decide) (by decide) plain
  · exact .pure (plainFailure_some (by decide))

theorem talks_handleCopy
    (now : Int)
    (username : CString)
    (msg : List CString) :
    Talks Deliverable (handleCopy backend now username msg) := by
  unfold handleCopy
  split
  · refine .bind (.ensure (by decide)) fun _ _ => ?_
    refine .bind (.ensure (by decide)) fun _ _ => ?_
    refine .andThen (talks_copyEntries username _ _) fun _ => ?_
    refine .andThen (.read _) fun destSs => ?_
    split
    · refine .andThen (.read _) fun srcSs => ?_
      split
      · refine .bind (.sendAndWait plainly _ _) fun answer plain => ?_
        split
        · exact .refuse (by decide)
        · exact plain.elim
        · exact .optional (.change _) (.pure (plain.2 rfl))
      · exact .refuse (by decide)
    · exact .refuse (by decide)
  · exact .refuse (by decide)

/-- The count `DELETE` prints is bounded by the table. -/
theorem yields_handleDelete
    (username : CString)
    {msg : List CString}
    (plainMsg : ∀ field ∈ msg, PlainField field) :
    Yields (fun state => TableFits state.ns)
      (fun reply _ => Deliverable reply) Refusal.Plain
      (handleDelete backend username msg) := by
  unfold handleDelete
  split
  · next type targetPath rest =>
    refine Tells.andThen (Tells.ensure (by decide)) fun _ valid => ?_
    refine Tells.andThen (Tells.ensure (by decide)) fun _ _ => ?_
    refine Talks.after (yields_planDelete username targetPath)
      fun plan few => ?_
    refine .andThen (talks_deleteOnStorage plainly plan) fun _ => ?_
    refine .andThen (.change _) fun _ => ?_
    have namePlain : PlainField targetPath :=
      plainMsg targetPath (List.mem_cons_of_mem _ List.mem_cons_self)
    have short :=
      length_of_validateFilename (validateFilename_of_path valid)
    rw [maxFilenameLength] at short
    split
    · refine .pure (deliverable_okReply ⟨?_, ?_⟩)
      · exact (PlainField.append (by decide) namePlain).append (by decide)
      · have label : (str "Entry '").length = 7 := by decide
        have suffix : (str "' deleted.").length = 10 := by decide
        rw [List.length_append, List.length_append, maxFieldSize]
        omega
    · refine .pure (deliverable_okReply ⟨?_, ?_⟩)
      · exact ((((PlainField.append (by decide) (plainField_decimal _)).append
          (by decide)).append namePlain).append (by decide))
      · have label : (str "Deleted ").length = 8 := by decide
        have middle : (str " entries under '").length = 16 := by decide
        have suffix : (str "'.").length = 2 := by decide
        have digits : (decimal (plan.length : Int)).length ≤ 20 :=
          length_decimal_le ⟨by omega, by rw [nsMaxFiles] at few; omega⟩
        simp only [List.length_append]
        rw [maxFieldSize]
        omega
  · exact Talks.anywhere (.refuse (by decide))

theorem talks_handleApproveAccess
    (username : CString)
    (msg : List CString) :
    Talks Deliverable (handleApproveAccess backend username msg) := by
  unfold handleApproveAccess
  split
  · refine .andThen (.read _) fun found => ?_
    split
    · refine .bind (.ensure (by decide)) fun _ _ => ?_
      refine .andThen (.lookup _) fun entry => ?_
      split
      · refine .andThen (.change _) fun _ => ?_
        refine .andThen (.change _) fun _ => ?_
        refine .bind (talks_approveOnStorage plainly _ _)
          fun failure plainFailure => ?_
        split
        · next refusal =>
          refine .andThen (.change _) fun _ => ?_
          refine .andThen (.change _) fun _ => ?_
          exact .throw (plainFailure refusal rfl)
        · exact .pure (deliverable_okReply (by decide))
      · exact .refuse (by decide)
    · exact .refuse (by decide)
  · exact .refuse (by decide)

theorem talks_handleAddAccess
    (username : CString)
    {msg : List CString}
    (plainMsg : ∀ field ∈ msg, PlainField field) :
    Talks Deliverable (handleAddAccess backend username msg) := by
  unfold handleAddAccess
  split
  · next type filename targetUser permission rest =>
    refine .bind (.ensure (by decide)) fun _ valid => ?_
    rw [Bool.and_eq_true] at valid
    have userPlain := plainField_of_validateUsername valid.2
    have userShort := (validateUsername_iff.mp valid.2).2.1
    rw [maxUsernameLength] at userShort
    split
    · next grantRead grantWrite parsed =>
      have permissionPlain : PlainField permission :=
        plainMsg permission (by simp)
      have permissionShort := length_of_parsePermissionFlags parsed
      refine .bind (.ensure (by decide)) fun _ _ => ?_
      refine .andThen (.lookup _) fun found => ?_
      split
      · refine .bind (.ensure (by decide)) fun _ _ => ?_
        split
        · refine .pure (deliverable_okReply ⟨?_, ?_⟩)
          · exact (PlainField.append (by decide) userPlain).append
              (by decide)
          · have label : (str "Owner '").length = 7 := by decide
            have suffix : (str "' already has full access.").length = 26 := by
              decide
            rw [List.length_append, List.length_append, maxFieldSize]
            omega
        · refine .andThen (.change _) fun _ => ?_
          refine .bind (.ensure (by decide)) fun _ _ => ?_
          refine .bind (talks_accessOnStorage plainly _ _)
            fun failure plainFailure => ?_
          split
          · next refusal =>
            refine .andThen (.change _) fun _ => ?_
            exact .throw (plainFailure refusal rfl)
          · refine .pure (deliverable_okReply ⟨?_, ?_⟩)
            · exact (((PlainField.append (by decide) userPlain).append
                (by decide)).append permissionPlain).append (by decide)
            · have label : (str "Access granted to ").length = 18 := by
                decide
              have opening : (str " (").length = 2 := by decide
              have suffix : (str ").").length = 2 := by decide
              simp only [List.length_append]
              rw [maxFieldSize]
              omega
      · exact .refuse (by decide)
    · exact .refuse (by decide)
  · exact .refuse (by decide)

theorem talks_handleRemAccess
    (username : CString)
    (msg : List CString) :
    Talks Deliverable (handleRemAccess backend username msg) := by
  unfold handleRemAccess
  split
  · next type filename targetUser rest =>
    refine .bind (.ensure (by decide)) fun _ valid => ?_
    rw [Bool.and_eq_true] at valid
    have userPlain := plainField_of_validateUsername valid.2
    have userShort := (validateUsername_iff.mp valid.2).2.1
    rw [maxUsernameLength] at userShort
    refine .bind (.ensure (by decide)) fun _ _ => ?_
    refine .andThen (.lookup _) fun found => ?_
    split
    · refine .bind (.ensure (by decide)) fun _ _ => ?_
      refine .bind (.ensure (by decide)) fun _ _ => ?_
      refine .andThen (.change _) fun _ => ?_
      refine .bind (talks_accessOnStorage plainly _ _)
        fun failure plainFailure => ?_
      split
      · next refusal =>
        refine .andThen (.change _) fun _ => ?_
        exact .throw (plainFailure refusal rfl)
      · refine .pure (deliverable_okReply ⟨?_, ?_⟩)
        · exact (PlainField.append (by decide) userPlain).append (by decide)
        · have label : (str "Access revoked for ").length = 19 := by decide
          have suffix : (str ".").length = 1 := by decide
          rw [List.length_append, List.length_append, maxFieldSize]
          omega
    · exact .refuse (by decide)
  · exact .refuse (by decide)

end Commands

/-! ## What depends on the entries -/

section Entries

variable {World : Type}

/-- The fields of the registry came over the wire. -/
def FieldsWired (state : NsState World) : Prop :=
  FieldsHold wireRules FileMetadata.Storable RequestStorable state.ns

theorem steady_fieldsWired :
    Steady (FieldsWired : NsState World → Prop) :=
  fun _ _ only holds => holds.of_onlyCache only

theorem tells_lookup (filename : CString) :
    Tells FieldsWired
      (fun found =>
        ∀ index file, found = some (index, file) → file.Storable)
      (lookupMetadata filename : NsHandler World _) :=
  .lookup steady_fieldsWired (fun _ holds => holds.entries) filename

theorem yields_locateFile
    (now : Int)
    (username operation filename : CString) :
    Yields FieldsWired (fun reply _ => Deliverable reply) Refusal.Plain
      (locateFile now username operation filename : NsHandler World _) := by
  unfold locateFile
  refine Tells.andThen (.ensure (by decide)) fun _ _ => ?_
  refine Tells.andThen (.ensure (by decide)) fun _ _ => ?_
  refine Tells.andThen (tells_lookup filename) fun found storable => ?_
  split
  · next index file =>
    have isStorable := storable index file rfl
    refine Talks.anywhere ?_
    split
    · refine .bind (.ensure (by decide)) fun _ _ => ?_
      refine .andThen (.change _) fun _ => .pure ?_
      refine deliverable_of_fits (List.cons_ne_nil _ _) (by simp) ?_
      simp only [List.forall_mem_cons, List.not_mem_nil, false_implies,
        implies_true, and_true]
      exact ⟨by decide, isStorable.fits_filename, isStorable.fits_ssIp,
        fitsField_decimal isStorable.ssPort_fits⟩
    · exact .refuse (by decide)
  · exact Talks.anywhere (.refuse (by decide))

theorem yields_handleReqLoc
    (now : Int)
    (username : CString)
    (msg : List CString) :
    Yields FieldsWired (fun reply _ => Deliverable reply) Refusal.Plain
      (handleReqLoc now username msg : NsHandler World _) := by
  unfold handleReqLoc
  split
  · exact yields_locateFile now username _ _
  · exact yields_locateFile now username _ _
  · exact Talks.anywhere (.refuse (by decide))

theorem yields_handleLookup (filename : CString) :
    Yields FieldsWired (fun reply _ => Deliverable reply) Refusal.Plain
      (handleLookup filename : NsHandler World _) := by
  unfold handleLookup
  refine Tells.andThen (tells_lookup filename) fun found storable => ?_
  split
  · next index file =>
    refine Talks.anywhere (.pure ?_)
    refine deliverable_of_fits (List.cons_ne_nil _ _) (by simp) ?_
    simp only [List.forall_mem_cons, List.not_mem_nil, false_implies,
      implies_true, and_true]
    exact ⟨by decide, (storable index file rfl).fits_filename⟩
  · exact Talks.anywhere (.refuse (by decide))

end Entries

/-! ## Every command -/

/-- What holds of the registry in every run in which all comes over the wire. -/
structure Orderly (ns : NameServer) : Prop where
  registry : Registry ns
  fields :
    FieldsHold wireRules FileMetadata.Storable RequestStorable ns
  fits : TableFits ns

/-- A request of a client has all of its fields. -/
def NsCommand.Complete : NsCommand → Prop
  | .requestAccess msg => 3 ≤ msg.length
  | _ => True

/-- The reply to a command arrives as it was sent. -/
theorem yields_command
    {World : Type}
    {backend : Backend World}
    (plainly : ∀ address fields world,
      PlainAnswer fields (backend address fields world).1)
    (now : Int)
    (username : CString)
    {command : NsCommand}
    (plainMsg : ∀ field ∈ command.message, PlainField field)
    (complete : command.Complete) :
    Yields (fun state => Orderly state.ns)
      (fun reply _ => Deliverable reply) Refusal.Plain
      (command.handler backend now username) := by
  have always :
      ∀ {program : NsHandler World (List CString)},
        Talks Deliverable program →
          Yields (fun state => Orderly state.ns)
            (fun reply _ => Deliverable reply) Refusal.Plain program :=
    fun talks => talks.anywhere
  have wired :
      ∀ {program : NsHandler World (List CString)},
        Yields FieldsWired (fun reply _ => Deliverable reply) Refusal.Plain
            program →
          Yields (fun state => Orderly state.ns)
            (fun reply _ => Deliverable reply) Refusal.Plain program :=
    fun yields =>
      yields.mono (fun _ orderly => orderly.fields) fun _ _ => id
  cases command with
  | create msg => exact always (talks_handleCreate plainly now username plainMsg)
  | createFolder msg => exact always (talks_handleCreateFolder now username msg)
  | move msg => exact always (talks_handleMove plainly now username msg)
  | delete msg =>
      exact (yields_handleDelete plainly username plainMsg).mono
        (fun _ orderly => orderly.fits) fun _ _ => id
  | copy msg => exact always (talks_handleCopy plainly now username msg)
  | reqLoc msg => exact wired (yields_handleReqLoc now username msg)
  | lookup filename => exact wired (yields_handleLookup filename)
  | requestAccess msg =>
      exact always (talks_handleRequestAccess username complete)
  | approveAccess msg =>
      exact always (talks_handleApproveAccess plainly username msg)
  | rejectAccess msg => exact always (talks_handleRejectAccess username msg)
  | addAccess msg =>
      exact always (talks_handleAddAccess plainly username plainMsg)
  | remAccess msg =>
      exact always (talks_handleRemAccess plainly username msg)

end DistributedDocs
