import DistributedDocs.DocumentRuns
import DistributedDocs.StorageUsers

namespace DistributedDocs

/-!
# Who writes a document

The right to write is checked when a sentence is locked, and not again when it
is committed.  Still no client changes a document without having had it: every
session goes back to a lock that was granted, and the other commands check the
right themselves.
-/

/-! ## Sessions and their holders -/

/-- What of a session stays the same while it is open. -/
structure SessionHolder where
  clientFd : Nat
  file : Nat
  username : CString
  deriving DecidableEq

/-- Whose session it is, and for which record. -/
def WriteSession.holder (session : WriteSession) : SessionHolder where
  clientFd := session.clientFd
  file := session.file
  username := session.username

/-- Sessions are held as before, or by someone who is let in. -/
def LetsIn
    (admitted : SessionHolder → Prop)
    (before after : StorageServer) : Prop :=
  ∀ session ∈ after.sessions,
    (∃ former ∈ before.sessions, former.holder = session.holder) ∨
      admitted session.holder

namespace LetsIn

variable {admitted : SessionHolder → Prop}

/-- No other sessions are there. -/
theorem of_sublist
    {before after : StorageServer}
    (fewer : after.sessions.Sublist before.sessions) :
    LetsIn admitted before after :=
  fun session listed => .inl ⟨session, fewer.subset listed, rfl⟩

theorem isEffect : IsEffect (LetsIn admitted) where
  refl _ := of_sublist (List.Sublist.refl _)
  trans earlier later := by
    intro session listed
    rcases later session listed with ⟨former, present, same⟩ | admittedNow
    · rw [← same]
      exact earlier former present
    · exact .inr admittedNow

theorem onDisk
    {α : Type}
    (operation : Disk CString → α × Disk CString) :
    StaysWithin (LetsIn admitted) (DistributedDocs.onDisk operation) :=
  fun _ => of_sublist (List.Sublist.refl _)

theorem send (receiver : Peer) (fields : List CString) :
    StaysWithin (LetsIn admitted) (DistributedDocs.send receiver fields) :=
  fun _ => of_sublist (List.Sublist.refl _)

theorem refuse {α : Type} (code : Int) (text : String) :
    StaysWithin (LetsIn admitted)
      (DistributedDocs.refuse code text : Handler α) :=
  .throw isEffect _

theorem ensure
    (condition : Bool)
    {otherwise : Handler Unit}
    (within : StaysWithin (LetsIn admitted) otherwise) :
    StaysWithin (LetsIn admitted)
      (DistributedDocs.ensure condition otherwise) :=
  .ite (.pure isEffect _) within

theorem ssReadFileContent (path : CString) :
    StaysWithin (LetsIn admitted) (DistributedDocs.ssReadFileContent path) :=
  .bind isEffect (onDisk _) fun _ => .pure isEffect _

theorem ssWriteFileContent (path data : CString) :
    StaysWithin (LetsIn admitted)
      (DistributedDocs.ssWriteFileContent path data) :=
  .bind isEffect (onDisk _) fun _ => .pure isEffect _

theorem ssTouchFileMetadata
    (now : Int)
    (rec : FileRecord)
    (username : Option CString)
    (updateModified : Bool) :
    StaysWithin (LetsIn admitted)
      (DistributedDocs.ssTouchFileMetadata now rec username
        updateModified) := by
  refine .bind isEffect (fun _ => of_sublist (List.Sublist.refl _)) fun _ => ?_
  exact .bind isEffect (.bind isEffect (onDisk _) fun _ => .pure isEffect _)
    fun _ => .pure isEffect _

theorem ssSyncMetadataToNs (rec : FileRecord) :
    StaysWithin (LetsIn admitted)
      (DistributedDocs.ssSyncMetadataToNs rec) := by
  refine .bind isEffect ?_ fun _ =>
    .bind isEffect (ssReadFileContent _) fun _ => send _ _
  refine .bind isEffect (.get isEffect) fun ss => ?_
  split
  · exact .pure isEffect _
  · exact .pure isEffect _

/-- A change of the session table that keeps the holders. -/
theorem modifySessions
    {change : List WriteSession → List WriteSession}
    (keeps :
      ∀ sessions, ∀ session ∈ change sessions,
        ∃ former ∈ sessions, former.holder = session.holder) :
    StaysWithin (LetsIn admitted) (DistributedDocs.modifySessions change) :=
  fun ss session listed => .inl (keeps ss.sessions session listed)

theorem ssDetachSession (fd : Nat) :
    StaysWithin (LetsIn admitted)
      (DistributedDocs.modifySessions fun sessions =>
        DistributedDocs.ssDetachSession sessions fd) :=
  fun ss => of_sublist (ssDetachSession_sublist ss.sessions fd)

/-! ### The commands about sessions -/

/-- A lock is granted to a user who may write, and to no other. -/
theorem lockSentence
    {rec : FileRecord}
    {fd : Nat}
    {username : CString}
    (letIn :
      ssCheckWriteAccess rec username = true →
        admitted ⟨fd, rec.address, safeStrcpy username maxUsernameLength⟩)
    (indexField : CString)
    (sentenceIndex : Int) :
    StaysWithin (LetsIn admitted)
      (DistributedDocs.lockSentence fd username indexField sentenceIndex
        rec) := by
  unfold DistributedDocs.lockSentence
  cases access : ssCheckWriteAccess rec username with
  | false => exact fun _ => of_sublist (List.Sublist.refl _)
  | true =>
      refine .bind isEffect (ensure _ (refuse _ _)) fun _ => ?_
      refine .bind isEffect (.get isEffect) fun _ => ?_
      refine .bind isEffect (ensure _ (refuse _ _)) fun _ => ?_
      refine .bind isEffect (ssReadFileContent _) fun fileData => ?_
      split
      · split
        · refine .bind isEffect ?_ fun _ =>
            .bind isEffect (send _ _) fun _ => send _ _
          intro ss session listed
          rcases List.mem_cons.mp listed with rfl | present
          · exact .inr (letIn access)
          · exact .inl ⟨session, present, rfl⟩
        · exact refuse _ _
      · exact refuse _ _

theorem handleClientWriteData (fd : Nat) (msg : List CString) :
    StaysWithin (LetsIn admitted)
      (DistributedDocs.handleClientWriteData fd msg) := by
  unfold DistributedDocs.handleClientWriteData
  split
  · split
    · refine .bind isEffect (ensure _ (refuse _ _)) fun _ => ?_
      refine .bind isEffect (.get isEffect) fun _ => ?_
      split
      · split
        · refine .bind isEffect (modifySessions ?_) fun _ => send _ _
          intro sessions session listed
          obtain ⟨former, present, rfl⟩ := List.mem_map.mp listed
          refine ⟨former, present, ?_⟩
          split
          · rfl
          · rfl
        · exact refuse _ _
      · exact refuse _ _
    · exact refuse _ _
  · exact refuse _ _

theorem handleClientEtirw (now : Int) (fd : Nat) :
    StaysWithin (LetsIn admitted)
      (DistributedDocs.handleClientEtirw now fd) := by
  unfold DistributedDocs.handleClientEtirw
  refine .bind isEffect (.get isEffect) fun _ => ?_
  split
  · refine .bind isEffect (.get isEffect) fun _ => ?_
    split
    · unfold DistributedDocs.commitSession
      refine .bind isEffect (ssReadFileContent _) fun content => ?_
      split
      · refine .bind isEffect (ensure _ (refuse _ _)) fun _ => ?_
        refine .bind isEffect (ssWriteFileContent _ _) fun _ => ?_
        refine .bind isEffect (ensure _ (refuse _ _)) fun _ => ?_
        refine .bind isEffect (ssWriteFileContent _ _) fun _ => ?_
        refine .bind isEffect (ensure _ (refuse _ _)) fun _ => ?_
        refine .bind isEffect (ssTouchFileMetadata _ _ _ _) fun _ => ?_
        refine .bind isEffect (modifySessions ?_) fun _ => ?_
        · intro sessions session listed
          obtain ⟨former, present, rfl⟩ := List.mem_map.mp listed
          exact ⟨former, present, by simp [WriteSession.holder]⟩
        · exact .bind isEffect (ssDetachSession fd) fun _ =>
            .bind isEffect (send _ _) fun _ => ssSyncMetadataToNs _
      · exact refuse _ _
    · exact .pure isEffect _
  · exact refuse _ _

end LetsIn

/-! ## Locks that are granted -/

/-- A session is open for the holder. -/
def IsOpen (ss : StorageServer) (holder : SessionHolder) : Prop :=
  ∃ session ∈ ss.sessions, session.holder = holder

/--
How a client or the name server comes to write a record: a session is committed,
an earlier content is brought back, or the name server has it copied over.
-/
inductive Rewrites (ss : StorageServer) (rec : FileRecord) : SsEvent → Prop where
  | committed
      (now : Int)
      (fd : Nat)
      (username : CString)
      (isOpen : IsOpen ss ⟨fd, rec.address, username⟩) :
      Rewrites ss rec ⟨now, .etirw fd⟩
  | undone
      (now : Int)
      (fd : Nat)
      (type username : CString)
      (rest : List CString)
      (mayWrite : ssCheckWriteAccess rec username = true) :
      Rewrites ss rec
        ⟨now, .undo fd (type :: username :: rec.filename :: rest)⟩
  | reverted
      (now : Int)
      (fd : Nat)
      (type username : CString)
      (rest : List CString)
      (mayWrite : ssCheckWriteAccess rec username = true) :
      Rewrites ss rec
        ⟨now, .revert fd (type :: username :: rec.filename :: rest)⟩
  | copied (now : Int) (peer : PeerSession) (msg : List CString) :
      Rewrites ss rec ⟨now, .ssCopy peer msg⟩

theorem mayWrite_of_admitted
    {ss : StorageServer}
    {username filename : CString}
    {rec : FileRecord}
    (admitted : admittedRecord ss username filename = some rec) :
    ssCheckWriteAccess rec username = true := by
  have found := admittedRecord_found admitted
  simp only [admittedRecord, found, Option.ite_none_right_eq_some,
    Bool.and_eq_true] at admitted
  exact admitted.1.1

/-- An undo or a revert is accepted of a user who may write. -/
theorem admitted_of_accepted
    {ss : StorageServer}
    {event : SsEvent}
    {username filename : CString}
    (refused :
      ∀ refusal,
        writableIdleRecord username filename ss = .error refusal ss →
          Accepted ss event = false)
    (accepted : Accepted ss event = true) :
    ∃ rec, admittedRecord ss username filename = some rec := by
  have shape := writableIdleRecord_apply username filename ss
  cases admitted : admittedRecord ss username filename with
  | some rec => exact ⟨rec, rfl⟩
  | none =>
      rw [admitted] at shape
      obtain ⟨refusal, isRefused⟩ := shape
      rw [refused refusal isRefused] at accepted
      cases accepted

theorem mayWrite_of_undo
    {ss : StorageServer}
    {now : Int}
    {fd : Nat}
    {type username filename : CString}
    {rest : List CString}
    {rec : FileRecord}
    (found : ssFindFile ss.files filename = some rec)
    (accepted :
      Accepted ss ⟨now, .undo fd (type :: username :: filename :: rest)⟩ =
        true) :
    ssCheckWriteAccess rec username = true := by
  have refused :
      ∀ refusal,
        writableIdleRecord username filename ss = .error refusal ss →
          Accepted ss
            ⟨now, .undo fd (type :: username :: filename :: rest)⟩ = false := by
    intro refusal isRefused
    simp [Accepted, SsEvent.handler, handleClientUndo, isRefused]
  obtain ⟨other, admitted⟩ := admitted_of_accepted refused accepted
  rw [admittedRecord_found admitted] at found
  exact Option.some.inj found ▸ mayWrite_of_admitted admitted

theorem mayWrite_of_revert
    {ss : StorageServer}
    {now : Int}
    {fd : Nat}
    {type username filename : CString}
    {rest : List CString}
    {rec : FileRecord}
    (found : ssFindFile ss.files filename = some rec)
    (accepted :
      Accepted ss ⟨now, .revert fd (type :: username :: filename :: rest)⟩ =
        true) :
    ssCheckWriteAccess rec username = true := by
  cases rest with
  | nil => cases accepted
  | cons tag rest =>
      have refused :
          ∀ refusal,
            writableIdleRecord username filename ss = .error refusal ss →
              Accepted ss
                ⟨now, .revert fd
                  (type :: username :: filename :: tag :: rest)⟩ = false := by
        intro refusal isRefused
        by_cases empty : tagCopy tag = []
        · simp [Accepted, SsEvent.handler, handleClientRevert, empty]
        · simp [Accepted, SsEvent.handler, handleClientRevert, empty,
            isRefused]
      obtain ⟨other, admitted⟩ := admitted_of_accepted refused accepted
      rw [admittedRecord_found admitted] at found
      exact Option.some.inj found ▸ mayWrite_of_admitted admitted

/-- What an accepted command rewrites is written so. -/
theorem rewrites_of_documentCommand
    {ss : StorageServer}
    (apart : PathsApart ss)
    {event : SsEvent}
    {command : DocumentCommand}
    (does : documentCommand ss event = some command)
    {rec : FileRecord}
    (present : rec ∈ ss.files)
    (rewritten : command.rewrites = some rec.filename) :
    Rewrites ss rec event := by
  simp only [documentCommand, Option.ite_none_right_eq_some] at does
  obtain ⟨accepted, does⟩ := does
  obtain ⟨now, asked⟩ := event
  have isRec :
      ∀ {other : FileRecord}, other ∈ ss.files →
        other.filename = rec.filename → other = rec :=
    fun listed same => apart.eq_of_filename listed present same
  cases asked with
  | createFile msg =>
      obtain ⟨newRecord, _, rfl⟩ := Option.map_eq_some_iff.mp does
      cases rewritten
  | etirw fd =>
      obtain ⟨subject, isSubject, does⟩ := Option.bind_eq_some_iff.mp does
      obtain ⟨session, found, rfl⟩ := Option.map_eq_some_iff.mp does
      obtain rfl :=
        isRec (mem_of_subject isSubject) (Option.some.inj rewritten)
      obtain ⟨opened, isOpened, reached⟩ :=
        Option.bind_eq_some_iff.mp isSubject
      obtain rfl := Option.some.inj (isOpened.symm.trans found)
      refine .committed now fd opened.username
        ⟨opened, List.mem_of_find?_eq_some found, ?_⟩
      have isFd : opened.clientFd = fd := by
        simpa using List.find?_some found
      rw [WriteSession.holder, isFd, (mem_of_recordAt reached).2]
  | undo fd msg =>
      obtain ⟨subject, isSubject, does⟩ := Option.bind_eq_some_iff.mp does
      obtain rfl := Option.some.inj does
      obtain rfl :=
        isRec (mem_of_subject isSubject) (Option.some.inj rewritten)
      rcases msg with _ | ⟨type, _ | ⟨username, _ | ⟨filename, rest⟩⟩⟩
      iterate 3 cases isSubject
      have found : ssFindFile ss.files filename = some subject := isSubject
      have mayWrite := mayWrite_of_undo found accepted
      rw [← (ssFindFile_filename found).2]
      exact .undone now fd type username rest mayWrite
  | revert fd msg =>
      obtain ⟨subject, isSubject, does⟩ := Option.bind_eq_some_iff.mp does
      obtain rfl := Option.some.inj does
      obtain rfl :=
        isRec (mem_of_subject isSubject) (Option.some.inj rewritten)
      rcases msg with _ | ⟨type, _ | ⟨username, _ | ⟨filename, rest⟩⟩⟩
      iterate 3 cases isSubject
      have found : ssFindFile ss.files filename = some subject := isSubject
      have mayWrite := mayWrite_of_revert found accepted
      rw [← (ssFindFile_filename found).2]
      exact .reverted now fd type username rest mayWrite
  | checkpoint fd msg =>
      obtain ⟨subject, _, does⟩ := Option.bind_eq_some_iff.mp does
      obtain rfl := Option.some.inj does
      cases rewritten
  | deleteFile msg =>
      obtain ⟨subject, _, does⟩ := Option.bind_eq_some_iff.mp does
      obtain rfl := Option.some.inj does
      cases rewritten
  | ssRename oldLogical newLogical =>
      obtain ⟨subject, _, does⟩ := Option.bind_eq_some_iff.mp does
      obtain rfl := Option.some.inj does
      cases rewritten
  | ssCopy peer msg => exact .copied now peer msg
  | writeLock fd msg =>
      obtain ⟨subject, _, does⟩ := Option.bind_eq_some_iff.mp does
      cases does
  | writeData fd msg =>
      obtain ⟨subject, _, does⟩ := Option.bind_eq_some_iff.mp does
      cases does
  | disconnected fd =>
      obtain ⟨subject, _, does⟩ := Option.bind_eq_some_iff.mp does
      cases does

/-- A record keeps its name, unless a rename gives it another one. -/
theorem RecordsPlaced.renamed_of_stays
    {ss : StorageServer}
    (placed : RecordsPlaced ss)
    {event : SsEvent}
    {rec left : FileRecord}
    (present : rec ∈ ss.files)
    (stays : left ∈ (DistributedDocs.ssStep ss event).files)
    (sameAddress : left.address = rec.address) :
    left.filename = rec.filename ∨
      event.subject ss = some rec ∧
        ∃ oldLogical, event.command = .ssRename oldLogical left.filename := by
  rcases mem_files_ssStep stays with
    old | ⟨atTarget, allowed⟩ | ⟨msg, _, created⟩
  · rw [eq_of_address placed.addresses_nodup old present sameAddress]
    exact .inl rfl
  · have shape := eventScope_spec ss event
    have isRec :
        ∀ {owner : FileRecord}, owner ∈ ss.files →
          owner.address = (eventScope ss event).target → owner = rec :=
      fun listed owns =>
        eq_of_address placed.addresses_nodup listed present
          (owns.trans (atTarget.symm.trans sameAddress))
    by_cases isRename : ∃ old new, event.command = .ssRename old new
    · obtain ⟨now, command⟩ := event
      obtain ⟨oldLogical, newLogical, rfl⟩ := isRename
      simp only [eventScope, renameCommandScope] at allowed isRec
      cases admitted : renamedRecord ss oldLogical newLogical with
      | none =>
          rw [admitted] at allowed
          exact allowed.elim
      | some owner =>
          rw [admitted] at allowed isRec
          simp only [renamedRecord, Option.ite_none_right_eq_some,
            Bool.and_eq_true] at admitted
          obtain ⟨⟨_, newValid⟩, subject⟩ := admitted
          obtain rfl := isRec (ssFindFile_filename subject).1 rfl
          obtain ⟨time, rfl⟩ := allowed
          have named :
              safeStrcpy newLogical maxFilenameLength = newLogical :=
            safeStrcpy_of_short (length_of_validateFilename newValid)
          exact .inr ⟨subject, oldLogical,
            congrArg (SsCommand.ssRename oldLogical) named.symm⟩
    · generalize eventScope ss event = scope at shape allowed isRec
      cases shape with
      | idle keepsSessions =>
          exact allowed.elim
      | content keepsSessions listed subject =>
          obtain rfl := isRec listed rfl
          exact .inl (FileRecord.KeepsNames.filename_eq allowed)
      | checkpoint listed subject built taken freed =>
          obtain rfl := isRec listed rfl
          exact .inl (FileRecord.KeepsNames.filename_eq allowed)
      | rename listed subject nameShort taken freed =>
          have nothing : freedPaths ss event = [] := by
            unfold freedPaths
            split
            · next old new asked =>
              exact absurd ⟨old, new, asked⟩ isRename
            · rfl
          rw [nothing] at freed
          cases freed
      | copy listed subject taken freed =>
          obtain rfl := isRec listed rfl
          exact .inl (FileRecord.KeepsNames.filename_eq allowed)
  · have isNew := (createdRecord_spec created).1
    have below := placed.addresses_lt rec present
    omega

section Changes

variable
  {ss : StorageServer}
  {store : Documents}
  (represents : Represents ss store)
  {event : SsEvent}
  (keeps : KeepsDocuments ss event)
  {rec left : FileRecord}
  (present : rec ∈ ss.files)

include represents keeps present

/-- A content that changes under the same name is rewritten. -/
theorem Represents.rewrites_named
    (stays : left ∈ (DistributedDocs.ssStep ss event).files)
    (sameName : left.filename = rec.filename)
    (changed :
      (DistributedDocs.ssStep ss event).disk.bytesAt left.filepath ≠
        ss.disk.bytesAt rec.filepath) :
    Rewrites ss rec event := by
  obtain ⟨next, applied, representsNext⟩ := represents.ssStep keeps
  obtain ⟨doc, isDoc, carries⟩ := represents.stored rec present
  obtain ⟨after, isAfter, carriesAfter⟩ := representsNext.stored left stays
  rw [sameName] at isAfter
  have contentChanged : after.content ≠ doc.content := by
    intro same
    rw [carriesAfter.content, carries.content, same] at changed
    exact changed rfl
  cases does : documentCommand ss event with
  | none =>
      rw [does, Option.toList_none, applyAll, Option.some.injEq] at applied
      rw [← applied, isDoc] at isAfter
      exact absurd (congrArg _ (Option.some.inj isAfter)).symm contentChanged
  | some command =>
      rw [does, Option.toList_some, applyAll, Option.bind_eq_some_iff]
        at applied
      obtain ⟨reached, applied, isReached⟩ := applied
      obtain rfl := Option.some.inj isReached
      refine rewrites_of_documentCommand represents.toPathsApart does present ?_
      by_contra notRewritten
      exact contentChanged
        (StoreCommand.content_eq_of_not_rewritten applied isDoc isAfter
          notRewritten)

/-- A record that gets another name keeps its content. -/
theorem Represents.content_renamed
    (stays : left ∈ (DistributedDocs.ssStep ss event).files)
    (sameAddress : left.address = rec.address)
    (otherName : left.filename ≠ rec.filename) :
    (DistributedDocs.ssStep ss event).disk.bytesAt left.filepath =
      ss.disk.bytesAt rec.filepath := by
  obtain ⟨next, applied, representsNext⟩ := represents.ssStep keeps
  obtain ⟨doc, isDoc, carries⟩ := represents.stored rec present
  obtain ⟨after, isAfter, carriesAfter⟩ := representsNext.stored left stays
  rw [carriesAfter.content, carries.content]
  obtain ⟨subject, oldLogical, asked⟩ :=
    (represents.renamed_of_stays present stays
      sameAddress).resolve_left otherName
  cases accepted : Accepted ss event with
  | true =>
      have does :
          documentCommand ss event =
            some (.move rec.filename left.filename) := by
        simp only [documentCommand, accepted, ↓reduceIte, asked, subject,
          Option.bind_some, SsCommand.toDocument]
      rw [does, Option.toList_some, applyAll, Option.bind_eq_some_iff]
        at applied
      obtain ⟨reached, moved, isReached⟩ := applied
      obtain rfl := Option.some.inj isReached
      simp only [StoreCommand.apply, applyEffect, StoreCommand.effect,
        Option.map_eq_some_iff, Option.ite_none_left_eq_some] at moved
      obtain ⟨updates, ⟨_, found, isFound, rfl⟩, rfl⟩ := moved
      rw [isDoc] at isFound
      obtain rfl := Option.some.inj isFound
      simp only [writeAt_cons, writeAt_nil, Function.update_self,
        Option.some.injEq] at isAfter
      rw [isAfter]
  | false =>
      -- refused, it would have to share its new name with another record
      have does : documentCommand ss event = none := by
        simp [documentCommand, accepted]
      rw [does, Option.toList_none, applyAll, Option.some.injEq] at applied
      rw [← applied] at isAfter
      obtain ⟨other, listed, named⟩ :=
        represents.named left.filename (by rw [isAfter]; rfl)
      have different : other ≠ rec := by
        rintro rfl
        exact otherName named.symm
      have kept : other ∈ (DistributedDocs.ssStep ss event).files :=
        represents.kept_of_not_subject listed fun isOther =>
          different (Option.some.inj (isOther.symm.trans subject))
      have same := representsNext.eq_of_filename stays kept named.symm
      rw [same] at sameAddress
      exact absurd
        (eq_of_address represents.addresses_nodup listed present sameAddress)
        different

/-- A content that changes is rewritten, whatever its record is called then. -/
theorem Represents.rewrites
    (stays : left ∈ (DistributedDocs.ssStep ss event).files)
    (sameAddress : left.address = rec.address)
    (changed :
      (DistributedDocs.ssStep ss event).disk.bytesAt left.filepath ≠
        ss.disk.bytesAt rec.filepath) :
    Rewrites ss rec event := by
  by_cases sameName : left.filename = rec.filename
  · exact represents.rewrites_named keeps present stays sameName changed
  · exact absurd
      (represents.content_renamed keeps present stays sameAddress sameName)
      changed

end Changes

end DistributedDocs
