import DistributedDocs.DocumentCommands

namespace DistributedDocs

/-!
# Runs of a storage server on its documents

Requests leave the documents as they are, and show them.  After any run the
server holds and shows what the accepted commands make of an empty store.
-/

/-- The command an operation is accepted with, if any. -/
def operationCommand
    (ss : StorageServer) : StorageOperation → Option DocumentCommand
  | .event event => documentCommand ss event
  | .request _ _ => none

/-- The commands that are accepted in a run, in order. -/
def acceptedCommands :
    StorageServer → List StorageOperation → List DocumentCommand
  | _, [] =>
      []
  | ss, operation :: rest =>
      (operationCommand ss operation).toList ++
        acceptedCommands (ssOperate ss operation) rest

/-- No document is written over by an operation on another one. -/
def SparesDocuments (ss : StorageServer) : StorageOperation → Prop
  | .event event => KeepsDocuments ss event
  | .request _ _ => True

instance (ss : StorageServer) :
    ∀ operation : StorageOperation, Decidable (SparesDocuments ss operation)
  | .event event => inferInstanceAs (Decidable (KeepsDocuments ss event))
  | .request _ _ => isTrue trivial

/-! ## Every operation -/

section Operations

variable
  {ss : StorageServer}
  {store : Documents}
  (represents : Represents ss store)

include represents

/-- A request leaves the documents as they are. -/
theorem Represents.request (now : Int) (request : StorageRequest) :
    Represents (ssOperate ss (.request now request)) store := by
  have effect := requestEffect ss now request
  obtain ⟨describe, files, same⟩ := effect.files_eq
  have anew := same represents.addresses_nodup
  have described :
      ∀ r ∈ (ssOperate ss (.request now request)).files,
        ∃ rec ∈ ss.files, rec.Redescribes r := by
    rw [files]
    intro r listed
    obtain ⟨rec, present, rfl⟩ := List.mem_map.mp listed
    exact ⟨rec, present, anew rec present⟩
  -- only sidecars are written, and a sidecar belongs to one record only
  have stays :
      ∀ rec ∈ ss.files, ∀ path ∈ rec.paths, path ≠ rec.metapath →
        (ssOperate ss (.request now request)).disk.bytesAt path =
          ss.disk.bytesAt path := by
    intro rec present path own notMeta
    apply effect.disk_agrees.bytesAt_eq
    intro sidecar
    obtain ⟨q, listed, rfl⟩ := List.mem_map.mp sidecar
    by_cases sameAddress : q.address = rec.address
    · rw [eq_of_address represents.addresses_nodup listed present
        sameAddress] at notMeta
      exact notMeta rfl
    · exact represents.paths_disjoint q listed rec present sameAddress
        (by simp [FileRecord.paths]) own
  have effectPlaced := effect.recordsPlaced represents.toRecordsPlaced
  exact
    { toRecordsPlaced := effectPlaced
      paths_nodup := by
        intro r listed
        obtain ⟨rec, present, again⟩ := described r listed
        rw [again.paths_eq]
        exact represents.paths_nodup rec present
      paths_disjoint := by
        intro r listed q qListed different
        obtain ⟨rec, present, again⟩ := described r listed
        obtain ⟨other, otherPresent, otherAgain⟩ := described q qListed
        rw [again.paths_eq, otherAgain.paths_eq]
        refine represents.paths_disjoint rec present other otherPresent ?_
        rwa [← again.address_eq, ← otherAgain.address_eq]
      stored := by
        intro r listed
        obtain ⟨rec, present, again⟩ := described r listed
        obtain ⟨doc, isDoc, carries⟩ := represents.stored rec present
        refine ⟨doc, again.filename_eq ▸ isDoc, ?_⟩
        exact carries.redescribed (represents.paths_nodup rec present) again
          (stays rec present)
      named := by
        intro name isNamed
        obtain ⟨rec, present, sameName⟩ := represents.named name isNamed
        refine ⟨describe rec, ?_, ?_⟩
        · rw [files]
          exact List.mem_map_of_mem present
        · rw [(anew rec present).filename_eq, sameName]
      undisturbed := effect.disk_agrees.undisturbed represents.undisturbed
      avoids_nul := effect.avoids_nul represents.avoids_nul }

/-- Every operation does to the documents what its command says. -/
theorem Represents.ssOperate
    {operation : StorageOperation}
    (spares : SparesDocuments ss operation) :
    ∃ next,
      applyAll (StoreCommand.apply documentRules)
          (operationCommand ss operation).toList store = some next ∧
        Represents (DistributedDocs.ssOperate ss operation) next := by
  cases operation with
  | event event => exact represents.ssStep spares
  | request now request =>
      exact ⟨store, rfl, represents.request now request⟩

/-- A run does to the documents what the accepted commands say. -/
theorem Represents.run
    {operations : List StorageOperation}
    (guarded : GuardedRun DistributedDocs.ssOperate SparesDocuments ss operations) :
    ∃ next,
      applyAll (StoreCommand.apply documentRules)
          (acceptedCommands ss operations) store = some next ∧
        Represents (runFrom DistributedDocs.ssOperate ss operations) next := by
  induction operations generalizing ss store with
  | nil =>
      exact ⟨store, rfl, represents⟩
  | cons operation rest inductionHypothesis =>
      obtain ⟨spares, guardedRest⟩ := guarded
      obtain ⟨next, first, representsNext⟩ := represents.ssOperate spares
      obtain ⟨final, later, representsFinal⟩ :=
        inductionHypothesis representsNext guardedRest
      refine ⟨final, ?_, representsFinal⟩
      rw [acceptedCommands, applyAll_append, first]
      exact later

end Operations

/-- What clients are shown of a document they may read. -/
structure ShowsDocuments
    (ss : StorageServer)
    (store : Documents) : Prop where
  same_names :
    ∀ filename,
      (ssFindFile ss.files filename).isSome = (store filename).isSome
  read :
    ∀ (now : Int) (fd : Nat) (type username filename : CString) (rec doc),
      ssFindFile ss.files filename = some rec →
        ssCheckReadAccess rec username = true →
          store filename = some doc →
            (ssOperate ss
                (.request now (.read fd [type, username, filename]))).sent =
              ss.sent ++
                (readMessages filename (cString doc.content)).map
                  (Message.mk (.client fd))
  view_checkpoint :
    ∀ (now : Int) (fd : Nat) (type username filename tag : CString)
        (rec doc text),
      ssFindFile ss.files filename = some rec →
        ssCheckReadAccess rec username = true →
          store filename = some doc →
            tagCopy tag ≠ [] →
              doc.snapshotAt (tagCopy tag) = some text →
                (ssOperate ss
                    (.request now
                      (.viewCheckpoint fd
                        [type, username, filename, tag]))).sent =
                  ss.sent ++
                    (readMessages (checkpointDisplayName rec (tagCopy tag))
                      (cString text)).map (Message.mk (.client fd))
  list_checkpoints :
    ∀ (now : Int) (fd : Nat) (type username filename : CString) (rec doc),
      ssFindFile ss.files filename = some rec →
        ssCheckReadAccess rec username = true →
          store filename = some doc →
            (ssOperate ss
                (.request now
                  (.listCheckpoints fd [type, username, filename]))).sent =
              ss.sent ++
                (doc.snapshots.map (fun snapshot =>
                    [str "OK_LIST_CHECKPOINT", snapshot.1]) ++
                  [[str "OK_LIST_CHECKPOINT_END"]]).map
                    (Message.mk (.client fd))

theorem sent_of_accepted
    {ss after : StorageServer}
    {now : Int}
    {request : StorageRequest}
    (done : request.handler now ss = .ok () after) :
    (ssOperate ss (.request now request)).sent = after.sent := by
  simp only [ssOperate, done]

/-- A server shows the documents it represents. -/
theorem Represents.shows
    {ss : StorageServer}
    {store : Documents}
    (represents : Represents ss store) :
    ShowsDocuments ss store := by
  have carried :
      ∀ {filename rec doc},
        ssFindFile ss.files filename = some rec →
          store filename = some doc →
            rec.filename = filename ∧ rec.Carries ss.disk doc := by
    intro filename rec doc found isDoc
    obtain ⟨present, rfl⟩ := ssFindFile_filename found
    obtain ⟨kept, isKept, carries⟩ := represents.stored rec present
    rw [isKept] at isDoc
    exact ⟨rfl, Option.some.inj isDoc ▸ carries⟩
  have undisturbed := represents.undisturbed
  constructor
  · exact represents.ssFindFile_isSome
  · intro now fd type username filename rec doc found allowed isDoc
    obtain ⟨named, carries⟩ := carried found isDoc
    have done :
        ∃ after,
          StorageRequest.handler now
              (.read fd [type, username, filename]) ss = .ok () after ∧
            after.sent =
              ss.sent ++
                (readMessages filename (cString doc.content)).map
                  (Message.mk (.client fd)) := by
      simp only [StorageRequest.handler, handleClientRead, bind_apply,
        get_apply, found, readRecord, ensure_apply, allowed, ↓reduceIte,
        ssReadFileContent_undisturbed undisturbed, carries.content,
        Option.map_some, forM_send_apply, named]
      exact ⟨_, ssTouchFileMetadata_undisturbed (by exact undisturbed) now rec
        (some username) false, rfl⟩
    obtain ⟨after, handled, sent⟩ := done
    rw [sent_of_accepted handled, sent]
  · intro now fd type username filename tag rec doc text found allowed isDoc
      nonempty isText
    obtain ⟨_, carries⟩ := carried found isDoc
    rw [carries.snapshotAt_eq nonempty, Option.bind_eq_some_iff] at isText
    obtain ⟨ckpt, isCkpt, stored⟩ := isText
    obtain ⟨after, viewed, sent⟩ :=
      viewCheckpointRecord_undisturbed undisturbed now fd allowed isCkpt stored
    have handled :
        StorageRequest.handler now
            (.viewCheckpoint fd [type, username, filename, tag]) ss =
          .ok () after := by
      simp only [StorageRequest.handler, handleClientViewcheckpoint,
        bind_apply, ensure_apply, ne_eq, nonempty, not_false_eq_true,
        decide_true, ↓reduceIte, get_apply, found]
      exact viewed
    rw [sent_of_accepted handled, sent]
  · intro now fd type username filename rec doc found allowed isDoc
    obtain ⟨_, carries⟩ := carried found isDoc
    have tags :
        rec.checkpoints.map (fun ckpt =>
            [str "OK_LIST_CHECKPOINT", ckpt.tag]) =
          doc.snapshots.map fun snapshot =>
            [str "OK_LIST_CHECKPOINT", snapshot.1] := by
      have pairs := carries.snapshots
      generalize rec.checkpoints = checkpoints at pairs
      generalize doc.snapshots = snapshots at pairs
      induction pairs with
      | nil =>
          rfl
      | cons keeps _ inductionHypothesis =>
          rw [List.map_cons, List.map_cons, keeps.tag, inductionHypothesis]
    have done :
        ∃ after,
          StorageRequest.handler now
              (.listCheckpoints fd [type, username, filename]) ss =
            .ok () after ∧
            after.sent =
              ss.sent ++
                (checkpointMessages rec).map (Message.mk (.client fd)) := by
      simp only [StorageRequest.handler, handleClientListcheckpoints,
        bind_apply, get_apply, found, listCheckpointsOf, ensure_apply, allowed,
        ↓reduceIte, forM_send_apply]
      exact ⟨_, ssTouchFileMetadata_undisturbed (by exact undisturbed) now rec
        (some username) false, rfl⟩
    obtain ⟨after, handled, sent⟩ := done
    rw [sent_of_accepted handled, sent, checkpointMessages, tags]

end DistributedDocs
