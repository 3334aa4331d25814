import DistributedDocs.MetadataDurability
import DistributedDocs.SubtreeDeletion

namespace DistributedDocs

/-!
# Positions in `files[]` that have been saved

Between a lookup and the use of the position it returned, other commands run.
Entries are only appended, except by `DELETE`, which fills each hole with the
last entry: a position whose entry stays in the table denotes it, or lies past
the end.  So a saved position comes to denote another file in two ways only.
`DELETE` takes out the entry there and leaves enough entries to fill the
position, or a new entry is appended at the position when it is the end.
-/

/-- The entries that a `DELETE` of this path takes out. -/
def deletedAlong
    (targetPath : CString)
    (ns : NameServer)
    (file : FileMetadata) : Bool :=
  ns.files.any fun target =>
    decide (target.filename = targetPath) &&
      takenAlong targetPath target.isDirectory file.filename

/-- The entries that a `DELETE` of this path leaves in the table. -/
def leftBeside (targetPath : CString) (ns : NameServer) : List FileMetadata :=
  ns.files.filter fun file => !deletedAlong targetPath ns file

/--
Carried out, the command brings no other file to the position: `DELETE` does
not take out the entry there, unless the position is past what it leaves, and
nothing is appended there.
-/
def sparesPlace (command : NsCommand) (ns : NameServer) (place : Nat) : Bool :=
  match command with
  | .create _ => decide (place ≠ ns.files.length)
  | .createFolder _ => decide (place ≠ ns.files.length)
  | .delete (_ :: targetPath :: _) =>
      ns.files[place]?.all fun file =>
        !deletedAlong targetPath ns file ||
          decide ((leftBeside targetPath ns).length ≤ place)
  | _ => true

/-- The command is carried out, and not refused. -/
def carriedOut
    {World : Type}
    (backend : Backend World)
    (now : Int)
    (username : CString)
    (command : NsCommand)
    (state : NsState World) : Bool :=
  match command.handler backend now username state with
  | .ok _ _ => true
  | .error _ _ => false

/-- The document at the position, if there is one, was there before. -/
def KeepsPlace (place : Nat) (before after : NameServer) : Prop :=
  ∀ later,
    after.files[place]? = some later →
      ∃ file,
        before.files[place]? = some file ∧ later.document = file.document

namespace KeepsPlace

variable {place : Nat}

theorem of_files
    {before after : NameServer}
    (files : after.files = before.files) :
    KeepsPlace place before after :=
  fun later held => ⟨later, files ▸ held, rfl⟩

theorem trans
    {first second third : NameServer}
    (earlier : KeepsPlace place first second)
    (later : KeepsPlace place second third) :
    KeepsPlace place first third := by
  intro last held
  obtain ⟨middle, middleHeld, sameLater⟩ := later last held
  obtain ⟨file, fileHeld, same⟩ := earlier middle middleHeld
  exact ⟨file, fileHeld, sameLater.trans same⟩

theorem of_map
    {before after : NameServer}
    {change : FileMetadata → FileMetadata}
    (files : after.files = before.files.map change)
    (sameDocument : ∀ file, (change file).document = file.document) :
    KeepsPlace place before after := by
  intro later held
  rw [files, List.getElem?_map, Option.map_eq_some_iff] at held
  obtain ⟨file, fileHeld, rfl⟩ := held
  exact ⟨file, fileHeld, sameDocument file⟩

theorem of_modify
    {before after : NameServer}
    {index : Nat}
    {change : FileMetadata → FileMetadata}
    (files : after.files = before.files.modify index change)
    (sameDocument : ∀ file, (change file).document = file.document) :
    KeepsPlace place before after := by
  intro later held
  rw [files, List.getElem?_modify, Option.map_eq_map,
    Option.map_eq_some_iff] at held
  obtain ⟨file, fileHeld, rfl⟩ := held
  refine ⟨file, fileHeld, ?_⟩
  split
  · exact sameDocument file
  · rfl

/-- A new entry takes the end of the table. -/
theorem of_append
    {before after : NameServer}
    {added : FileMetadata}
    (files : after.files = before.files ++ [added])
    (notEnd : place ≠ before.files.length) :
    KeepsPlace place before after := by
  intro later held
  refine ⟨later, ?_, rfl⟩
  have bound : place < (before.files ++ [added]).length :=
    files ▸ (List.getElem?_eq_some_iff.mp held).1
  rw [List.length_append, List.length_singleton] at bound
  rwa [files, List.getElem?_append_left (by omega)] at held

end KeepsPlace

/-! ## What a deletion leaves at a position -/

section Removing

variable
  {ns : NameServer}
  {place : Nat}
  {later : FileMetadata}

theorem files_applyDeleteEntry (entry : DeletePlanEntry) :
    (applyDeleteEntry ns entry).files =
      (removeFileMetadataLocked entry.path ns).2.files := by
  unfold applyDeleteEntry
  generalize removeFileMetadataLocked entry.path ns = result
  obtain ⟨found, left⟩ := result
  cases found with
  | false =>
      rfl
  | true =>
      cases entry.ss <;> rfl

/-- The last entry fills the hole, and all others stay. -/
theorem held_of_removeFileMetadataLocked
    (coherent : Coherent ns)
    {filename : CString}
    (spared :
      ∀ file, ns.files[place]? = some file → file.filename ≠ filename)
    (held :
      (removeFileMetadataLocked filename ns).2.files[place]? = some later) :
    ns.files[place]? = some later := by
  rw [coherent.removeFileMetadataLocked_eq] at held
  split at held
  · next hole last found isLast =>
    obtain ⟨removed, removedHeld, removedName⟩ := plainScan_some found
    have kept := (getElem?_filledHole (lt_of_plainScan found)).mp held
    rcases kept with ⟨_, ⟨rfl, _⟩ | ⟨_, stays⟩⟩
    · exact absurd removedName (spared removed removedHeld)
    · exact stays
  · exact held

theorem held_of_foldl_applyDeleteEntry
    (registry : Registry ns)
    (plan : List DeletePlanEntry)
    (spared :
      ∀ file, ns.files[place]? = some file →
        ∀ entry ∈ plan, file.filename ≠ entry.path)
    (held : (plan.foldl applyDeleteEntry ns).files[place]? = some later) :
    ns.files[place]? = some later := by
  induction plan generalizing ns with
  | nil =>
      exact held
  | cons entry rest inductionHypothesis =>
      have stays :
          ∀ {file},
            (applyDeleteEntry ns entry).files[place]? = some file →
              ns.files[place]? = some file := by
        intro file fileHeld
        rw [files_applyDeleteEntry] at fileHeld
        refine held_of_removeFileMetadataLocked registry.coherent ?_ fileHeld
        exact fun other present => spared other present entry List.mem_cons_self
      refine stays (inductionHypothesis (registry.applyDeleteEntry entry).1 ?_
        held)
      intro file fileHeld other member
      exact spared file (stays fileHeld) other (List.mem_cons_of_mem _ member)

theorem deletedAlong_iff_inSubtree
    (namesNodup : (ns.files.map FileMetadata.filename).Nodup)
    {target : FileMetadata}
    (present : target ∈ ns.files)
    (file : FileMetadata) :
    deletedAlong target.filename ns file = true ↔ InSubtree target file := by
  rw [← takenAlong_iff_inSubtree, deletedAlong, List.any_eq_true]
  simp only [Bool.and_eq_true, decide_eq_true_eq]
  constructor
  · rintro ⟨other, otherPresent, named, taken⟩
    rwa [eq_of_filename namesNodup otherPresent present named] at taken
  · exact fun taken => ⟨target, present, rfl, taken⟩

/-- The plan of a `DELETE` takes out what it should, and fills from the end. -/
theorem PlannedDeletes.keepsPlace
    {before : NameServer}
    {username targetPath type : CString}
    {rest : List CString}
    {target : FileMetadata}
    {plan : List DeletePlanEntry}
    (planned : PlannedDeletes before username targetPath target plan)
    (registry : Registry ns)
    (sameFiles : ns.files = before.files)
    (sameRequests : ns.accessRequests = before.accessRequests)
    (spares :
      sparesPlace (.delete (type :: targetPath :: rest)) before place =
        true) :
    KeepsPlace place before (applyDelete plan ns) := by
  have namesNodup : (before.files.map FileMetadata.filename).Nodup :=
    sameFiles ▸ registry.coherent.names_nodup
  have deleted := planned.subtreeDeleted registry sameFiles sameRequests
  have inside :
      ∀ file, deletedAlong targetPath before file = true ↔
        InSubtree target file :=
    planned.named ▸ deletedAlong_iff_inSubtree namesNodup planned.present
  have left :
      (applyDelete plan ns).files.Perm (leftBeside targetPath before) := by
    refine (List.perm_ext_iff_of_nodup (.of_map _ deleted.names_unique)
      (.filter _ (.of_map _ namesNodup))).mpr fun file => ?_
    rw [deleted.remaining, List.mem_filter, ← inside]
    simp
  intro later held
  by_cases stays :
      ∀ file, before.files[place]? = some file → ¬InSubtree target file
  · refine ⟨later, ?_, rfl⟩
    rw [← sameFiles]
    refine held_of_foldl_applyDeleteEntry registry (removalOrder plan) ?_ held
    intro file fileHeld entry member named
    rw [sameFiles] at fileHeld
    rw [mem_removalOrder_iff] at member
    obtain ⟨other, present, within, same⟩ :=
      (planned.mem_paths_iff entry.path).mp (List.mem_map_of_mem member)
    refine stays file fileHeld ?_
    rwa [eq_of_filename namesNodup (List.mem_of_getElem? fileHeld) present
      (named.trans same.symm)]
  · -- The entry is taken out: nothing is left that could fill the position.
    push Not at stays
    obtain ⟨file, fileHeld, within⟩ := stays
    have past : (leftBeside targetPath before).length ≤ place := by
      simpa [sparesPlace, fileHeld, (inside file).mpr within] using spares
    rw [← left.length_eq, ← List.getElem?_eq_none_iff] at past
    rw [past] at held
    cases held

end Removing

/-! ## What a command leaves at a position -/

section Commands

variable
  {World : Type}
  {backend : Backend World}
  {now : Int}
  {username : CString}
  {start : NsState World}

/-- A program that leaves `files[]` as it is when it is refused. -/
def RefusedEmptyHanded
    {α : Type}
    (start : NsState World)
    (program : NsHandler World α) : Prop :=
  Triple (Looked start) program (fun _ _ => True)
    fun final => final.ns.files = start.ns.files

namespace RefusedEmptyHanded

theorem afterLooking
    {α β : Type}
    {fact : α → Prop}
    {program : NsHandler World α}
    {next : α → NsHandler World β}
    (finds : Finds start fact program)
    (acts : ∀ value, fact value → RefusedEmptyHanded start (next value)) :
    RefusedEmptyHanded start (program >>= next) :=
  finds.andThen (fun _ looked => looked.files_eq) acts

theorem refuse
    {α : Type}
    (code : Int)
    (text : String) :
    RefusedEmptyHanded start (nsRefuse code text : NsHandler World α) :=
  Triple.throw fun _ looked => looked.files_eq

theorem createFolder (msg : List CString) :
    RefusedEmptyHanded start (handleCreateFolder now username msg) := by
  unfold handleCreateFolder
  split
  · next type path rest =>
    refine .afterLooking Finds.ensure fun _ _ => ?_
    refine .afterLooking Finds.ensure fun _ _ => ?_
    refine .afterLooking
      (Finds.read fun state only => by rw [only.files]) fun _ _ => ?_
    refine .afterLooking Finds.ensure fun _ _ => ?_
    refine .afterLooking (Finds.lookup_absent path) fun _ _ => ?_
    refine .afterLooking Finds.ensure fun _ _ => ?_
    split
    · split
      · exact .afterLooking (finds_ensureFolder _ _ _)
          fun _ _ _ _ => trivial
      · exact fun _ _ => trivial
    · exact .refuse _ _
  · exact .refuse _ _

/-- A storage server that refuses makes `CREATE` take its entry out again. -/
theorem create
    (registry : Registry start.ns)
    (msg : List CString) :
    RefusedEmptyHanded start (handleCreate backend now username msg) := by
  unfold handleCreate createTarget
  split
  · next type filename rest =>
    refine .afterLooking Finds.ensure fun _ valid => ?_
    refine .afterLooking Finds.ensure fun _ _ => ?_
    simp only [bind_assoc]
    refine .afterLooking
      (Finds.read fun state only => by rw [only.files]) fun _ _ => ?_
    refine .afterLooking Finds.ensure fun _ _ => ?_
    refine .afterLooking (Finds.lookup_absent filename)
      fun found isFound => ?_
    refine .afterLooking Finds.ensure fun _ absent => ?_
    refine .afterLooking
      (Finds.read fun state only => by
        unfold OnlyCacheChanged at only
        rw [only]) fun _ _ => ?_
    refine .afterLooking Finds.ensure fun _ _ => ?_
    intro looked known
    simp only [onNs, bind_apply, modifyGet_apply]
    cases selected : (nsSelectStorageServerBalanced looked.ns).1 with
    | none =>
        exact (files_select _).trans known.files_eq
    | some target =>
        have fresh := isFound (by simpa using absent)
        simp only [pure_apply, changeNs, modify_apply]
        generalize asked :
          createOnStorage backend target username filename _ = result
        cases result with
        | error refusal answered =>
            exact absurd asked
              (onlyAsks_createOnStorage target filename).ne_error
        | ok outcome answered =>
            cases outcome with
            | none =>
                trivial
            | some refusal =>
                have kept := (onlyAsks_createOnStorage _ _).ns_eq asked
                have files :=
                  files_createRefused now username target registry known valid
                    fresh
                exact (kept ▸ files : _)
  · exact .refuse _ _

theorem delete (msg : List CString) :
    RefusedEmptyHanded start (handleDelete backend username msg) := by
  unfold handleDelete
  split
  · next type targetPath rest =>
    refine .afterLooking Finds.ensure fun _ _ => ?_
    refine .afterLooking Finds.ensure fun _ _ => ?_
    refine .afterLooking (finds_planDelete targetPath) fun plan _ => ?_
    intro looked known
    rw [bind_apply]
    cases deletes : deleteOnStorage backend plan looked with
    | error refusal final =>
        have kept :=
          ns_of_staysWithin (sameRegistry_deleteOnStorage _)
            (congrArg finalState deletes)
        rw [finalState_error] at kept
        exact (congrArg NameServer.files kept).trans known.files_eq
    | ok _ emptied =>
        simp only [bind_apply, changeNs, modify_apply]
        by_cases single : plan.length = 1 <;>
          simp only [single, ↓reduceIte] <;> trivial
  · exact .refuse _ _

end RefusedEmptyHanded

/-- A command that spares a position leaves the document there. -/
theorem keepsPlace_of_effect
    (registry : Registry start.ns)
    {command : NsCommand}
    {final : NsState World}
    (effect : CommandEffect backend now username start command final)
    {place : Nat}
    (spares : sparesPlace command start.ns place = true) :
    KeepsPlace place start.ns final.ns := by
  have changed :
      ∀ {looked : NsState World} {after : NameServer} {index change},
        Looked start looked →
          after.files = looked.ns.files.modify index change →
            KeepsIdentity change → KeepsPlace place start.ns after :=
    fun known files keeps =>
      (KeepsPlace.of_files known.files_eq).trans
        (.of_modify files keeps.document)
  cases effect with
  | looked known =>
      exact .of_files known.files_eq
  | unplaced known =>
      exact .of_files ((files_select _).trans known.files_eq)
  | createRefused known valid room fresh selected asking =>
      have kept := (onlyAsks_createOnStorage _ _).ns_eq asking
      rw [NsState.onRegistry, kept]
      exact .of_files
        (files_createRefused now username _ registry known valid fresh)
  | created known valid room fresh selected asking =>
      have kept := (onlyAsks_createOnStorage _ _).ns_eq asking
      rw [NsState.onRegistry, kept]
      exact .of_append (files_registered now username _ _ known)
        (by simpa [sparesPlace] using spares)
  | folder known valid room fresh =>
      exact (KeepsPlace.of_files known.files_eq).trans
        (.of_append (files_registerFile _ _ _)
          (by simpa [sparesPlace, known.files_eq] using spares))
  | moveRefused known normalized planned renames =>
      have kept :=
        ns_of_staysWithin (sameRegistry_renameOnStorage [] _)
          (congrArg finalState renames)
      exact .of_files (kept ▸ known.files_eq)
  | moved known normalized planned renames =>
      have kept :=
        ns_of_staysWithin (sameRegistry_renameOnStorage [] _)
          (congrArg finalState renames)
      have apart := planned.renamesApart registry.coherent.names_nodup
      rw [← known.files_eq] at apart
      obtain ⟨_, files⟩ := known.coherent.applyMove now username apart
      rw [known.files_eq] at files
      rw [finalState_ok] at kept
      rw [NsState.onRegistry, kept]
      exact .of_map files fun file =>
        (foldl_renamedEntry_frame now username _ file).1
  | deleteRefused known planned deletes =>
      have kept :=
        ns_of_staysWithin (sameRegistry_deleteOnStorage _)
          (congrArg finalState deletes)
      rw [finalState_error] at kept
      exact .of_files (kept ▸ known.files_eq)
  | deleted known planned deletes =>
      have kept :=
        ns_of_staysWithin (sameRegistry_deleteOnStorage _)
          (congrArg finalState deletes)
      rw [finalState_ok] at kept
      rw [NsState.onRegistry, kept]
      exact planned.keepsPlace (registry.looked known) known.files_eq
        known.onlyCache.sameRest.1 spares
  | copyAnswered known destination home asking =>
      have kept := (OnlyAsks.sendAndWait _ _).ns_eq asking
      exact .of_files (kept ▸ known.files_eq)
  | copied known source destination home asking =>
      have kept := (OnlyAsks.sendAndWait _ _).ns_eq asking
      rw [NsState.onRegistry, kept]
      exact changed known rfl (keepsIdentity_accessedMetadata now username)
  | @located msg operation filename index file looked known entry =>
      exact changed known (onlyCacheChanged_fileCacheStore _ _ _).files
        (keepsIdentity_locatedMetadata now username operation)
  | requested known valid parsed entry =>
      exact .of_files known.files_eq
  | approveRefused known request numbered isPending addressed entry asking =>
      have kept := (onlyAsks_approveOnStorage _ _).ns_eq asking
      rw [ungranted, NsState.onRegistry, kept]
      exact
        (changed known rfl (keepsIdentity_fileAddAccess _ _ _)).trans
          (.of_modify rfl (keepsIdentity_fileRemoveAccess _).document)
  | approved known request numbered isPending addressed entry asking =>
      have kept := (onlyAsks_approveOnStorage _ _).ns_eq asking
      rw [kept]
      exact changed known rfl (keepsIdentity_fileAddAccess _ _ _)
  | rejected known =>
      exact .of_files known.files_eq
  | notAdded known valid parsed entry owned other full =>
      exact changed known rfl (keepsIdentity_fileAddAccess _ _ _)
  | addRefused known valid parsed entry owned other asking =>
      have kept := (onlyAsks_accessOnStorage _ _).ns_eq asking
      rw [NsState.onRegistry, kept]
      exact
        (changed known rfl (keepsIdentity_fileAddAccess _ _ _)).trans
          (.of_modify rfl (keepsIdentity_fileRemoveAccess _).document)
  | added known valid parsed entry owned other room asking =>
      have kept := (onlyAsks_accessOnStorage _ _).ns_eq asking
      rw [kept]
      exact changed known rfl (keepsIdentity_fileAddAccess _ _ _)
  | removeRefused known valid entry owned listed asking =>
      have kept := (onlyAsks_accessOnStorage _ _).ns_eq asking
      rw [NsState.onRegistry, kept]
      exact
        (changed known rfl (keepsIdentity_fileRemoveAccess _)).trans
          (.of_modify rfl (keepsIdentity_fileAddAccess _ _ _).document)
  | removed known valid entry owned listed asking =>
      have kept := (onlyAsks_accessOnStorage _ _).ns_eq asking
      rw [kept]
      exact changed known rfl (keepsIdentity_fileRemoveAccess _)

/-- Only a command that is carried out can bring a document to a position. -/
theorem keepsPlace_of_command
    (registry : Registry start.ns)
    (command : NsCommand)
    {place : Nat}
    (spares :
      carriedOut backend now username command start = true →
        sparesPlace command start.ns place = true) :
    KeepsPlace place start.ns
      (finalState (command.handler backend now username start)).ns := by
  have effect :=
    effect_of_command backend now username registry.coherent command
  cases outcome : command.handler backend now username start with
  | ok reply final =>
      rw [outcome] at effect
      exact keepsPlace_of_effect registry effect
        (spares (by rw [carriedOut, outcome]))
  | error refusal final =>
      have known : Looked start start := Looked.refl registry.coherent
      have leaves :
          RefusedEmptyHanded start (command.handler backend now username) →
            KeepsPlace place start.ns final.ns := by
        intro refused
        have files := refused start known
        rw [outcome] at files
        exact .of_files files
      rw [outcome] at effect
      cases command with
      | create msg => exact leaves (.create registry msg)
      | createFolder msg => exact leaves (.createFolder msg)
      | delete msg => exact leaves (.delete msg)
      | _ => exact keepsPlace_of_effect registry effect rfl

end Commands

end DistributedDocs
