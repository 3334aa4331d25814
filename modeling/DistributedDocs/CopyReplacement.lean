import DistributedDocs.StorageFaults
import DistributedDocs.StorageUndo
import DistributedDocs.TextTransfer

namespace DistributedDocs

/-!
# Copies that replace a file

`SS_COPY` fills a temporary file and renames it over the destination.  Whatever
the peer sends and whatever the disk refuses, the destination is replaced by
the whole source or keeps what it had.
-/

/-! ## What a request asks for -/

/-- The message ends the content. -/
def isReadEnd : Option (List CString) → Bool
  | some (type :: _) => type = str "OK_READ_END"
  | _ => false

/-- Field 1 of an `OK_CONTENT` message; other messages carry no text. -/
def carriedText : Option (List CString) → CString
  | some (type :: text :: _) => if type = str "OK_CONTENT" then text else []
  | _ => []

/-- The texts of all messages before the first one that ends the content. -/
def textBeforeEnd (messages : List (Option (List CString))) : CString :=
  (messages.takeWhile fun message => !isReadEnd message).flatMap carriedText

/-- No session is open on the record. -/
def IdleRecord (ss : StorageServer) (rec : FileRecord) : Prop :=
  ∀ session ∈ ss.sessions, session.file ≠ rec.address

/-- The bytes the destination gets from a local source, or from a peer. -/
def CopySource
    (ss : StorageServer)
    (peer : PeerSession)
    (srcRec : Option FileRecord)
    (bytes : RawBytes) : Prop :=
  match srcRec with
  | some rec => ss.disk.bytesAt rec.filepath = some bytes
  | none =>
      ∃ messages,
        peer = .answers messages ∧ bytes = rawBytes (textBeforeEnd messages)

/--
The destination has been replaced: both records were idle, and it now holds
exactly the bytes of the source.
-/
def CopyDone
    (before after : StorageServer)
    (peer : PeerSession)
    (msg : List CString) : Prop :=
  match msg with
  | _ :: destFilename :: srcIp :: _ :: srcFilename :: _ =>
      ∃ destRec srcRec bytes,
        ssFindFile before.files destFilename = some destRec ∧
          IdleRecord before destRec ∧
            (if srcIp = str "LOCAL" then
                ∃ rec,
                  srcRec = some rec ∧
                    ssFindFile before.files srcFilename = some rec ∧
                      IdleRecord before rec
              else
                srcRec = none) ∧
              CopySource before peer srcRec bytes ∧
                after.disk.bytesAt destRec.filepath = some bytes
  | _ => False

/--
The destination is as before, with its snapshot and its metadata on disk and in
memory; the last thing done to the disk was to remove the temporary file.
-/
structure CopyUndone
    (before after : StorageServer)
    (destRec : FileRecord) : Prop where
  files_eq : after.files = before.files
  sessions_eq : after.sessions = before.sessions
  content_eq :
    after.disk.bytesAt destRec.filepath =
      before.disk.bytesAt destRec.filepath
  undo_eq :
    after.disk.bytesAt destRec.undopath =
      before.disk.bytesAt destRec.undopath
  meta_eq :
    after.disk.bytesAt destRec.metapath =
      before.disk.bytesAt destRec.metapath
  temporary_removed :
    ∃ last : Disk CString,
      after.disk = last.unlink (copyTempPath destRec) ∧
        (last.next.1 = .succeeds →
          after.disk.bytesAt (copyTempPath destRec) = none)

/-- No document has the name of a temporary file. -/
def TemporariesApart (ss : StorageServer) : Prop :=
  ∀ destRec ∈ ss.files, ∀ rec ∈ ss.files,
    rec.filepath ≠ copyTempPath destRec

/--
A copy answered with `OK` has replaced its destination; one answered with an
error was refused before it touched anything, or has undone what it did.
-/
def CopyAllOrNothing
    (before : StorageServer)
    (peer : PeerSession)
    (msg : List CString) :
    EStateM.Result Refusal StorageServer Unit → Prop
  | .ok _ after => CopyDone before after peer msg
  | .error _ after =>
      after = before ∨
        ∃ destFilename destRec,
          msg[1]? = some destFilename ∧
            ssFindFile before.files destFilename = some destRec ∧
              CopyUndone before after destRec

/-! ## Filling the temporary file -/

theorem textBeforeEnd_cons
    (message : Option (List CString))
    (rest : List (Option (List CString))) :
    textBeforeEnd (message :: rest) =
      if isReadEnd message then
        []
      else
        carriedText message ++ textBeforeEnd rest := by
  unfold textBeforeEnd
  rw [List.takeWhile_cons]
  cases isReadEnd message with
  | false => rfl
  | true => rfl

/--
A program that fills the temporary file: it always returns, writes nowhere
else, and when it reports no failure the file has the wanted bytes.
-/
def Fills
    (tempPath : CString)
    (start : StorageServer)
    (wanted : RawBytes → Prop)
    (program : Handler (Option Refusal)) : Prop :=
  ∃ failure disk,
    program start = .ok failure { start with disk := disk } ∧
      Disk.AgreesOutside [tempPath] start.disk disk ∧
        (failure = none →
          ∃ bytes, wanted bytes ∧ disk.bytesAt tempPath = some bytes)

section Filling

variable
  {tempPath : CString}
  {start : StorageServer}
  {wanted : RawBytes → Prop}

theorem Fills.failed (refusal : Refusal) :
    Fills tempPath start wanted (pure (some refusal)) :=
  ⟨_, start.disk, rfl, .refl _ _, nofun⟩

theorem Fills.ite
    {condition : Prop}
    [Decidable condition]
    {first second : Handler (Option Refusal)}
    (firstFills : condition → Fills tempPath start wanted first)
    (secondFills : ¬condition → Fills tempPath start wanted second) :
    Fills tempPath start wanted (if condition then first else second) := by
  split
  · next holds => exact firstFills holds
  · next fails => exact secondFills fails

/-- After an operation on the temporary file the rest of the program fills it. -/
theorem Fills.afterDisk
    {α : Type}
    {operation : Disk CString → α × Disk CString}
    {next : α → Handler (Option Refusal)}
    (only :
      Disk.AgreesOutside [tempPath] start.disk (operation start.disk).2)
    (fills :
      Fills tempPath { start with disk := (operation start.disk).2 } wanted
        (next (operation start.disk).1)) :
    Fills tempPath start wanted (onDisk operation >>= next) := by
  obtain ⟨failure, disk, runs, later, filled⟩ := fills
  exact ⟨failure, disk, runs, only.trans later, filled⟩

/-- The loop over the messages appends the text each of them carries. -/
theorem fills_receiveChunks
    (messages : List (Option (List CString)))
    {written : RawBytes}
    (stored : start.disk.bytesAt tempPath = some written) :
    Fills tempPath start
      (fun bytes => bytes = written ++ rawBytes (textBeforeEnd messages))
      (receiveChunks tempPath messages) := by
  induction messages generalizing written start with
  | nil =>
      exact .failed _
  | cons message rest inductionHypothesis =>
      rw [textBeforeEnd_cons]
      rcases message with _ | _ | ⟨type, arguments⟩
      · exact .failed _
      · exact .failed _
      · unfold receiveChunks
        by_cases isError : type = str "ERR"
        · rw [if_pos isError]
          exact .ite (fun _ => .failed _) fun _ =>
            .ite (fun _ => .failed _) fun _ => .failed _
        · rw [if_neg isError]
          by_cases isContent : type = str "OK_CONTENT"
          · have goesOn : isReadEnd (some (type :: arguments)) = false := by
              rw [isContent]
              exact decide_eq_false
                (show str "OK_CONTENT" ≠ str "OK_READ_END" by decide)
            rw [if_pos isContent, goesOn, if_neg Bool.false_ne_true]
            rcases arguments with _ | ⟨_ | ⟨c, chunk⟩, others⟩
            · exact inductionHypothesis stored
            · rw [carriedText, ite_self, List.nil_append]
              exact inductionHypothesis stored
            · rw [carriedText, if_pos isContent]
              refine .afterDisk
                (Disk.agreesOutside_append _ _ start.disk) ?_
              refine .ite (fun complete => ?_) fun _ => .failed _
              have extended :=
                bytesAt_append_of_complete (by simp [rawBytes]) stored
                  complete
              have joined :
                  rawBytes (c :: chunk ++ textBeforeEnd rest) =
                    rawBytes (c :: chunk) ++
                      rawBytes (textBeforeEnd rest) :=
                List.map_append
              rw [joined, ← List.append_assoc]
              exact inductionHypothesis extended
          · rw [if_neg isContent]
            by_cases isEnd : type = str "OK_READ_END"
            · have ends : isReadEnd (some (type :: arguments)) = true :=
                decide_eq_true isEnd
              rw [if_pos isEnd, ends, if_pos rfl]
              exact ⟨none, start.disk, rfl, .refl _ _, fun _ =>
                ⟨_, rfl, by simpa using stored⟩⟩
            · have goesOn : isReadEnd (some (type :: arguments)) = false :=
                decide_eq_false isEnd
              have carriesNothing :
                  carriedText (some (type :: arguments)) = [] := by
                cases arguments with
                | nil => rfl
                | cons text others => rw [carriedText, if_neg isContent]
              rw [if_neg isEnd, goesOn, if_neg Bool.false_ne_true,
                carriesNothing]
              exact inductionHypothesis stored

theorem fills_fetchSource
    (peer : PeerSession)
    {srcRec : Option FileRecord}
    {ss : StorageServer}
    (sameSource :
      ∀ rec, srcRec = some rec →
        rec.filepath ≠ tempPath ∧
          start.disk.bytesAt rec.filepath = ss.disk.bytesAt rec.filepath) :
    Fills tempPath start (CopySource ss peer srcRec)
      (fetchSource peer srcRec tempPath) := by
  cases srcRec with
  | some rec =>
      obtain ⟨apart, same⟩ := sameSource rec rfl
      refine .afterDisk (Disk.agreesOutside_copy _ _ start.disk) ?_
      cases copied : (start.disk.copy rec.filepath tempPath).1 with
      | false => exact .failed _
      | true =>
          obtain ⟨bytes, stored⟩ := Disk.exists_of_copy_done copied
          exact ⟨none, _, rfl, .refl _ _, fun _ =>
            ⟨bytes, same.symm.trans stored,
              Disk.bytesAt_copy_done apart stored copied⟩⟩
  | none =>
      cases peer with
      | unreachable => exact .failed _
      | requestNotSent => exact .failed _
      | answers messages =>
          refine .afterDisk (Disk.agreesOutside_write _ _ start.disk) ?_
          refine .ite (fun _ => .failed _) fun opened => ?_
          have created :
              (start.disk.write tempPath []).2.bytesAt tempPath = some [] :=
            Disk.bytesAt_write_nil opened
          obtain ⟨failure, disk, runs, only, filled⟩ :=
            @fills_receiveChunks tempPath
              { start with disk := (start.disk.write tempPath []).2 }
              messages [] created
          cases failure with
          | some refusal =>
              refine ⟨some refusal, disk.unlink tempPath, ?_,
                only.trans (Disk.agreesOutside_unlink tempPath disk), nofun⟩
              simp only [bind_apply, runs]
              rfl
          | none =>
              obtain ⟨bytes, isText, stored⟩ := filled rfl
              refine ⟨none, disk, ?_, only, fun _ =>
                ⟨bytes, ⟨messages, rfl, by simpa using isText⟩, stored⟩⟩
              simp only [bind_apply, runs]
              rfl

end Filling

/-! ## Renaming it over the destination -/

/-- What ends a copy leaves the content alone. -/
def finishScope (destRec : FileRecord) : Scope where
  target := destRec.address
  footprint := [destRec.metapath]
  allowed _ := True
  keepsSessions := True

/-- The end of `copyInto`, after the rename. -/
def finishCopy
    (now : Int)
    (username : CString)
    (destRec : FileRecord) : Handler Unit := do
  ssTouchFileMetadata now destRec (some username) true
  ssSyncMetadataToNs destRec
  send .nameServer [str "OK", str "Copy successful"]

/-- The part of `copyInto` after the temporary file has been filled, or not. -/
def settleCopy
    (now : Int)
    (username : CString)
    (destRec : FileRecord) : Option Refusal → Handler Unit
  | some refusal => do
      unlink (copyTempPath destRec)
      throw refusal
  | none => do
      ensure (← rename (copyTempPath destRec) destRec.filepath) do
        unlink (copyTempPath destRec)
        refuse errInternalError "Failed to finalize destination file"
      finishCopy now username destRec

theorem copyInto_eq
    (now : Int)
    (peer : PeerSession)
    (username : CString)
    (srcRec : Option FileRecord)
    (destRec : FileRecord) :
    copyInto now peer username srcRec destRec = (do
      unlink (copyTempPath destRec)
      settleCopy now username destRec
        (← fetchSource peer srcRec (copyTempPath destRec))) :=
  rfl

theorem completes_finishCopy
    (now : Int)
    (username : CString)
    (destRec : FileRecord) :
    Completes (finishCopy now username destRec) :=
  .bind (completes_ssTouchFileMetadata _ _ _ _) fun _ =>
    .bind (completes_ssSyncMetadataToNs _) fun _ => .modify _

theorem finishCopy_within
    (now : Int)
    (username : CString)
    (destRec : FileRecord) :
    StaysWithin (Effect (finishScope destRec))
      (finishCopy now username destRec) := by
  have isEffect := effect_isEffect (finishScope destRec)
  exact .bind isEffect
    (.ssTouchFileMetadata _ _ _ rfl trivial (by simp [finishScope])) fun _ =>
      .bind isEffect (.ssSyncMetadataToNs _) fun _ => .send _ _

theorem FileRecord.WellPlaced.metapath_ne_copyTempPath
    {storagePath : CString}
    (short : storagePath.length ≤ maxTagLength)
    {rec : FileRecord}
    (placed : rec.WellPlaced storagePath) :
    rec.metapath ≠ copyTempPath rec := by
  rw [placed.copyTempPath_eq short, placed.metapath_eq]
  intro same
  have suffixes := List.append_cancel_left same
  exact absurd suffixes (by decide)

section Renaming

variable
  {ss : StorageServer}
  {destRec : FileRecord}
  (placed : destRec.WellPlaced ss.storagePath)

include placed

/-- Only the temporary file has been touched, and it is removed. -/
theorem copyUndone_of_unlink
    {disk : Disk CString}
    (only : Disk.AgreesOutside [copyTempPath destRec] ss.disk disk) :
    CopyUndone ss { ss with disk := disk.unlink (copyTempPath destRec) }
      destRec := by
  have short := ss.storagePath.property
  have agrees :=
    only.trans (Disk.agreesOutside_unlink (copyTempPath destRec) disk)
  refine ⟨rfl, rfl, agrees.bytesAt_eq _ ?_, agrees.bytesAt_eq _ ?_,
    agrees.bytesAt_eq _ ?_, disk, rfl, ?_⟩
  · simpa using placed.filepath_ne_copyTempPath short
  · simpa using placed.undopath_ne_copyTempPath short
  · simpa using placed.metapath_ne_copyTempPath short
  · exact Disk.bytesAt_unlink_done

theorem copyInto_outcome
    (now : Int)
    (peer : PeerSession)
    (username : CString)
    {srcRec : Option FileRecord}
    (apart :
      ∀ rec, srcRec = some rec → rec.filepath ≠ copyTempPath destRec) :
    match copyInto now peer username srcRec destRec ss with
    | .ok _ after =>
        ∃ bytes,
          CopySource ss peer srcRec bytes ∧
            after.disk.bytesAt destRec.filepath = some bytes
    | .error _ after => CopyUndone ss after destRec := by
  have cleared :=
    Disk.agreesOutside_unlink (copyTempPath destRec) ss.disk
  obtain ⟨failure, disk, runs, only, filled⟩ :=
    @fills_fetchSource (copyTempPath destRec)
      { ss with disk := ss.disk.unlink (copyTempPath destRec) } peer srcRec ss
      fun rec isSource =>
        ⟨apart rec isSource,
          cleared.bytesAt_eq _ (by simpa using apart rec isSource)⟩
  have touched := cleared.trans only
  have begun :
      copyInto now peer username srcRec destRec ss =
        settleCopy now username destRec failure
          { ss with disk := disk } := by
    rw [copyInto_eq]
    refine (bind_of_ok _ rfl).trans ?_
    exact bind_of_ok _ runs
  rw [begun]
  cases failure with
  | some refusal => exact copyUndone_of_unlink placed touched
  | none =>
      obtain ⟨bytes, source, stored⟩ := filled rfl
      cases renamed :
          (disk.rename (copyTempPath destRec) destRec.filepath).1 with
      | false =>
          have refused :
              settleCopy now username destRec none { ss with disk := disk } =
                .error
                  ⟨errInternalError,
                    str "Failed to finalize destination file"⟩
                  { ss with
                    disk :=
                      (disk.rename (copyTempPath destRec)
                        destRec.filepath).2.unlink
                          (copyTempPath destRec) } := by
            refine (bind_of_ok _ rfl).trans ?_
            simp only [renamed]
            rfl
          rw [refused]
          exact copyUndone_of_unlink placed
            (touched.trans
              ((Disk.bytesAt_rename_failed renamed).mono (by simp)))
      | true =>
          have inPlace := Disk.bytesAt_rename_done stored renamed
          have goesOn :
              settleCopy now username destRec none { ss with disk := disk } =
                finishCopy now username destRec
                  { ss with
                    disk :=
                      (disk.rename (copyTempPath destRec)
                        destRec.filepath).2 } := by
            refine (bind_of_ok _ rfl).trans ?_
            simp only [renamed]
            rfl
          rw [goesOn]
          generalize
            (disk.rename (copyTempPath destRec) destRec.filepath).2 = replaced
            at inPlace ⊢
          have effect :=
            finishCopy_within now username destRec
              { ss with disk := replaced }
          obtain ⟨value, after, finished⟩ :=
            completes_finishCopy now username destRec
              { ss with disk := replaced }
          rw [finished, finalState_ok] at effect
          rw [finished]
          refine ⟨bytes, source, ?_⟩
          rw [effect.disk_agrees.bytesAt_eq destRec.filepath
            (by simpa [finishScope] using placed.metapath_ne)]
          exact inPlace

end Renaming

/-! ## Every copy -/

theorem idleRecord_of_not_active
    {ss : StorageServer}
    {rec : FileRecord}
    (idle : ssFileHasActiveWriters ss.sessions rec.address = false) :
    IdleRecord ss rec := by
  intro session isOpen same
  have active : ssFileHasActiveWriters ss.sessions rec.address = true :=
    List.any_eq_true.mpr ⟨session, isOpen, by simpa using same⟩
  rw [idle] at active
  cases active

/-- What an admitted copy has found out about its records. -/
theorem admittedCopy_spec
    {ss : StorageServer}
    {sourceIsLocal : Bool}
    {srcFilename destFilename : CString}
    {srcRec : Option FileRecord}
    {destRec : FileRecord}
    (admitted :
      admittedCopy ss sourceIsLocal srcFilename destFilename =
        some (srcRec, destRec)) :
    ssFindFile ss.files destFilename = some destRec ∧
      IdleRecord ss destRec ∧
        if sourceIsLocal then
          ∃ rec,
            srcRec = some rec ∧
              ssFindFile ss.files srcFilename = some rec ∧
                IdleRecord ss rec
        else
          srcRec = none := by
  unfold admittedCopy at admitted
  cases found : ssFindFile ss.files destFilename with
  | none =>
      rw [found] at admitted
      cases admitted
  | some rec =>
      simp only [found, Option.ite_none_right_eq_some, Bool.and_eq_true,
        Bool.not_eq_true', Option.some.injEq, Prod.mk.injEq] at admitted
      obtain ⟨⟨⟨sourceFound, destIdle⟩, sourceIdle⟩, sourceEq, rfl⟩ := admitted
      refine ⟨rfl, idleRecord_of_not_active destIdle, ?_⟩
      cases sourceIsLocal with
      | false => exact sourceEq.symm
      | true =>
          simp only [↓reduceIte, Bool.true_and] at sourceFound sourceIdle sourceEq
          rw [sourceEq] at sourceFound sourceIdle
          cases srcRec with
          | none => cases sourceFound
          | some source =>
              exact ⟨source, rfl, sourceEq,
                idleRecord_of_not_active (by simpa using sourceIdle)⟩

/--
Whatever the message, the source, the peer's answers and the faults of the
disk, an `SS_COPY` replaces the destination entirely or not at all.
-/
theorem copy_replacesOrLeaves
    {ss : StorageServer}
    (placed : RecordsPlaced ss)
    (apart : TemporariesApart ss)
    (now : Int)
    (peer : PeerSession)
    (msg : List CString) :
    CopyAllOrNothing ss peer msg (handleSsCopy now peer msg ss) := by
  match msg with
  | type :: destFilename :: srcIp :: srcPortField :: srcFilename ::
      username :: rest =>
      simp only [handleSsCopy, bind_apply, ensure_apply]
      by_cases named :
          (validateFilename destFilename && validateFilename srcFilename &&
            validateUsername username) = true
      · by_cases reachable :
            (decide (srcIp = str "LOCAL") ||
              (parseInt srcPortField).any fun srcPort => 0 < srcPort) = true
        · simp only [named, reachable, ↓reduceIte]
          have shape :=
            idleCopyRecords_apply (srcIp = str "LOCAL") srcFilename
              destFilename ss
          cases admitted :
              admittedCopy ss (srcIp = str "LOCAL") srcFilename
                destFilename with
          | none =>
              rw [admitted] at shape
              obtain ⟨refusal, refused⟩ := shape
              rw [refused]
              exact Or.inl rfl
          | some records =>
              obtain ⟨srcRec, destRec⟩ := records
              rw [admitted] at shape
              simp only at shape
              simp only [shape]
              obtain ⟨destFound, destIdle, source⟩ :=
                admittedCopy_spec admitted
              have present := (ssFindFile_filename destFound).1
              have outcome :=
                @copyInto_outcome ss destRec (placed.wellPlaced destRec present)
                  now peer username srcRec fun rec isSource => by
                    split at source
                    · obtain ⟨found, sameRecord, isThere, _⟩ := source
                      rw [isSource] at sameRecord
                      cases sameRecord
                      exact apart destRec present rec
                        (ssFindFile_filename isThere).1
                    · rw [isSource] at source
                      cases source
              cases ended : copyInto now peer username srcRec destRec ss with
              | ok value after =>
                  rw [ended] at outcome
                  obtain ⟨bytes, fromSource, stored⟩ := outcome
                  exact ⟨destRec, srcRec, bytes, destFound, destIdle,
                    by simpa using source, fromSource, stored⟩
              | error refusal after =>
                  rw [ended] at outcome
                  exact Or.inr ⟨destFilename, destRec, rfl, destFound, outcome⟩
        · simp only [named, reachable, Bool.false_eq_true, ↓reduceIte,
            refuse_apply]
          exact Or.inl rfl
      · simp only [named, Bool.false_eq_true, ↓reduceIte, refuse_apply]
        exact Or.inl rfl
  | [] | [_] | [_, _] | [_, _, _] | [_, _, _, _] | [_, _, _, _, _] =>
      exact Or.inl rfl

/-- A document, with faults to come. -/
def oneDocument (faults : List Outcome) : StorageServer :=
  let ss :=
    runFrom ssStep (newServer ⟨str "s", length_shortPath⟩)
      [⟨1, .createFile [str "CREATE_FILE", str "a", str "ada"]⟩]
  { ss with disk := { ss.disk with outcomes := faults } }

/-- A copy from another server over the document. -/
def copyFromPeer : List CString :=
  [ str "SS_COPY", str "a", str "10.0.0.7", str "9001", str "b", str "ada" ]

/-- What the other server answers. -/
def twoChunks : PeerSession :=
  .answers
    [ some [str "OK_CONTENT", str "New"], some [str "OK_CONTENT", str "."],
      some [str "OK_READ_END"] ]

/-- The copy is done, or its rename is refused and the document stays. -/
theorem copy_replacesOrLeaves_oneDocument :
    ((finalState (handleSsCopy 2 twoChunks copyFromPeer
          (oneDocument []))).disk.bytesAt (str "s/a") =
        some (rawBytes (str "New.")) ∧
      (finalState (handleSsCopy 2 twoChunks copyFromPeer
          (oneDocument [.succeeds, .succeeds, .succeeds, .succeeds,
            .refused]))).disk.bytesAt (str "s/a") =
        some []) ∧
      CopyAllOrNothing
        (oneDocument [.succeeds, .succeeds, .succeeds, .succeeds, .refused])
        twoChunks copyFromPeer
        (handleSsCopy 2 twoChunks copyFromPeer
          (oneDocument [.succeeds, .succeeds, .succeeds, .succeeds,
            .refused])) :=
  ⟨⟨by decide +kernel, by decide +kernel⟩,
    copy_replacesOrLeaves ((recordsPlaced_run _ _).withFaults _)
      (by unfold TemporariesApart; decide +kernel) 2 twoChunks copyFromPeer⟩

end DistributedDocs
