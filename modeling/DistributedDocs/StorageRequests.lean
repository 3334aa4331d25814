import DistributedDocs.StorageOperations

namespace DistributedDocs

/-!
# What a request may touch

A request describes at most one record anew.  It writes that record's sidecar
and nothing else, however the disk operations end.
-/

/-- The record with another description: the document is the same. -/
structure FileRecord.Redescribes (rec r : FileRecord) : Prop where
  address_eq : r.address = rec.address
  filename_eq : r.filename = rec.filename
  filepath_eq : r.filepath = rec.filepath
  metapath_eq : r.metapath = rec.metapath
  undopath_eq : r.undopath = rec.undopath
  undoAvailable_eq : r.undoAvailable = rec.undoAvailable
  checkpoints_eq : r.checkpoints = rec.checkpoints

namespace FileRecord.Redescribes

variable {rec r : FileRecord}

theorem refl (rec : FileRecord) : rec.Redescribes rec :=
  ⟨rfl, rfl, rfl, rfl, rfl, rfl, rfl⟩

theorem paths_eq (same : rec.Redescribes r) : r.paths = rec.paths := by
  rw [FileRecord.paths, FileRecord.paths, same.filepath_eq, same.metapath_eq,
    same.undopath_eq, same.checkpoints_eq]

theorem wellPlaced
    {storagePath : CString}
    (same : rec.Redescribes r)
    (placed : rec.WellPlaced storagePath) :
    r.WellPlaced storagePath where
  filepath_eq := by
    rw [same.filepath_eq, same.filename_eq, placed.filepath_eq]
  metapath_eq := by
    rw [same.metapath_eq, same.filepath_eq, placed.metapath_eq]
  undopath_eq := by
    rw [same.undopath_eq, same.filepath_eq, placed.undopath_eq]

end FileRecord.Redescribes

/-- The scope of a request about a record. -/
def describeScope (rec : FileRecord) : Scope where
  target := rec.address
  footprint := [rec.metapath]
  allowed := rec.Redescribes
  keepsSessions := True

namespace StaysWithin

variable {rec : FileRecord}

theorem putRecord
    {changed : FileRecord}
    (same : rec.Redescribes changed) :
    StaysWithin (Effect (describeScope rec))
      (DistributedDocs.putRecord changed) :=
  fun _ =>
    { storagePath_eq := rfl
      nextAddress_eq := rfl
      disk_agrees := .refl _ _
      avoids_nul := id
      files_stored := Or.inr ⟨changed, same.address_eq, same, rfl⟩
      sessions_eq := fun _ => rfl }

theorem describe
    {changed : FileRecord}
    (same : rec.Redescribes changed) :
    StaysWithin (Effect (describeScope rec))
      (DistributedDocs.ssWriteMetadata changed) :=
  .ssWriteMetadata (by simp [describeScope, same.metapath_eq])

theorem touch
    (now : Int)
    (username : CString) :
    StaysWithin (Effect (describeScope rec))
      (DistributedDocs.ssTouchFileMetadata now rec (some username) false) :=
  .ssTouchFileMetadata now _ _ rfl ⟨rfl, rfl, rfl, rfl, rfl, rfl, rfl⟩
    (by simp [describeScope])

theorem sendAll
    {scope : Scope}
    (receiver : Peer)
    (messages : List (List CString)) :
    StaysWithin (Effect scope)
      (messages.forM (DistributedDocs.send receiver)) := by
  intro ss
  rw [forM_send_apply]
  exact
    { storagePath_eq := rfl
      nextAddress_eq := rfl
      disk_agrees := .refl _ _
      avoids_nul := id
      files_stored := Or.inl rfl
      sessions_eq := fun _ => rfl }

theorem sendWords
    {scope : Scope}
    (fd : Nat)
    (content : CString) :
    StaysWithin (Effect scope) (DistributedDocs.sendWords fd content) := by
  intro ss
  rw [sendWords_apply]
  exact
    { storagePath_eq := rfl
      nextAddress_eq := rfl
      disk_agrees := .refl _ _
      avoids_nul := id
      files_stored := Or.inl rfl
      sessions_eq := fun _ => rfl }

/-! ## The handlers, from the record on -/

theorem readRecord
    (now : Int)
    (fd : Nat)
    (username : CString) :
    StaysWithin (Effect (describeScope rec))
      (DistributedDocs.readRecord now fd username rec) := by
  have isEffect := effect_isEffect (describeScope rec)
  unfold DistributedDocs.readRecord
  refine .bind isEffect (.ensure _ (.refuse _ _)) fun _ => ?_
  refine .bind isEffect (.ssReadFileContent _) fun content => ?_
  split
  · exact .bind isEffect (.sendAll _ _) fun _ => .touch now username
  · exact .refuse _ _

theorem streamRecord
    (now : Int)
    (fd : Nat)
    (username : CString) :
    StaysWithin (Effect (describeScope rec))
      (DistributedDocs.streamRecord now fd username rec) := by
  have isEffect := effect_isEffect (describeScope rec)
  unfold DistributedDocs.streamRecord
  refine .bind isEffect (.ensure _ (.refuse _ _)) fun _ => ?_
  refine .bind isEffect (.ssReadFileContent _) fun content => ?_
  split
  · refine .bind isEffect (.send _ _) fun _ => ?_
    refine .bind isEffect (.sendWords fd _) fun _ => ?_
    exact .bind isEffect (.send _ _) fun _ => .touch now username
  · exact .refuse _ _

theorem viewCheckpointRecord
    (now : Int)
    (fd : Nat)
    (username tag : CString) :
    StaysWithin (Effect (describeScope rec))
      (DistributedDocs.viewCheckpointRecord now fd username tag rec) := by
  have isEffect := effect_isEffect (describeScope rec)
  unfold DistributedDocs.viewCheckpointRecord
  refine .bind isEffect (.ensure _ (.refuse _ _)) fun _ => ?_
  split
  · refine .bind isEffect (.ssFileExists _) fun _ => ?_
    refine .bind isEffect (.ensure _ (.refuse _ _)) fun _ => ?_
    refine .bind isEffect (.ssReadFileContent _) fun content => ?_
    split
    · exact .bind isEffect (.sendAll _ _) fun _ => .touch now username
    · exact .refuse _ _
  · exact .refuse _ _

theorem listCheckpointsOf
    (now : Int)
    (fd : Nat)
    (username : CString) :
    StaysWithin (Effect (describeScope rec))
      (DistributedDocs.listCheckpointsOf now fd username rec) := by
  have isEffect := effect_isEffect (describeScope rec)
  unfold DistributedDocs.listCheckpointsOf
  refine .bind isEffect (.ensure _ (.refuse _ _)) fun _ => ?_
  exact .bind isEffect (.sendAll _ _) fun _ => .touch now username

theorem addAccessTo
    (filename username : CString)
    (wantRead wantWrite : Bool) :
    StaysWithin (Effect (describeScope rec))
      (DistributedDocs.addAccessTo filename username wantRead wantWrite
        rec) := by
  have isEffect := effect_isEffect (describeScope rec)
  unfold DistributedDocs.addAccessTo
  simp only
  refine .bind isEffect (.putRecord ⟨rfl, rfl, rfl, rfl, rfl, rfl, rfl⟩)
    fun _ => ?_
  split
  · refine .bind isEffect (.describe ⟨rfl, rfl, rfl, rfl, rfl, rfl, rfl⟩)
      fun described => ?_
    exact .ite (.send _ _)
      (.bind isEffect (.putRecord ⟨rfl, rfl, rfl, rfl, rfl, rfl, rfl⟩)
        fun _ => .refuse _ _)
  · refine .bind isEffect (.pure isEffect _) fun described => ?_
    exact .ite (.send _ _)
      (.bind isEffect (.putRecord ⟨rfl, rfl, rfl, rfl, rfl, rfl, rfl⟩)
        fun _ => .refuse _ _)

theorem removeAccessFrom (filename username : CString) :
    StaysWithin (Effect (describeScope rec))
      (DistributedDocs.removeAccessFrom filename username rec) := by
  have isEffect := effect_isEffect (describeScope rec)
  unfold DistributedDocs.removeAccessFrom
  simp only
  refine .bind isEffect (.putRecord ⟨rfl, rfl, rfl, rfl, rfl, rfl, rfl⟩)
    fun _ => ?_
  refine .bind isEffect (.ensure _ (.refuse _ _)) fun _ => ?_
  refine .bind isEffect
    (.describe ⟨rfl, rfl, rfl, rfl, rfl, rfl, rfl⟩) fun _ => ?_
  refine .bind isEffect (.ensure _ ?_) fun _ => .send _ _
  exact .bind isEffect (.putRecord ⟨rfl, rfl, rfl, rfl, rfl, rfl, rfl⟩)
    fun _ => .refuse _ _

theorem nsGetStats (msg : List CString) :
    StaysWithin (Effect (noScope True)) (DistributedDocs.nsGetStats msg) := by
  have isEffect := effect_isEffect (noScope True)
  unfold DistributedDocs.nsGetStats
  split
  · refine .bind isEffect (.get isEffect) fun ss => ?_
    split
    · refine .bind isEffect (.getFileSize _) fun size => ?_
      exact .bind isEffect (.ssReadFileContent _) fun content => .send _ _
    · exact .refuse _ _
  · exact .refuse _ _

theorem nsGetContent (msg : List CString) :
    StaysWithin (Effect (noScope True))
      (DistributedDocs.nsGetContent msg) := by
  have isEffect := effect_isEffect (noScope True)
  unfold DistributedDocs.nsGetContent
  split
  · refine .bind isEffect (.get isEffect) fun ss => ?_
    split
    · refine .bind isEffect (.ssReadFileContent _) fun content => ?_
      split
      · exact .send _ _
      · exact .refuse _ _
    · exact .refuse _ _
  · exact .refuse _ _

end StaysWithin

/-! ## Every request -/

/-- What a request has done: nothing, or it has described one record anew. -/
inductive RequestEffect (before after : StorageServer) : Prop where
  | none
      (effect : Effect (noScope True) before after)
  | described
      {rec : FileRecord}
      (present : rec ∈ before.files)
      (effect : Effect (describeScope rec) before after)

namespace RequestEffect

variable
  {ss : StorageServer}

theorem refused (refusal : Refusal) :
    RequestEffect ss
      (finalState (.error refusal ss : EStateM.Result _ _ Unit)) :=
  .none ((effect_isEffect _).refl ss)

theorem within
    {filename : CString}
    {rec : FileRecord}
    (found : ssFindFile ss.files filename = some rec)
    {program : Handler Unit}
    (within : StaysWithin (Effect (describeScope rec)) program) :
    RequestEffect ss (finalState (program ss)) :=
  .described (ssFindFile_filename found).1 (within ss)

theorem with_sent
    {after : StorageServer}
    (effect : RequestEffect ss after)
    (sent : List Message) :
    RequestEffect ss { after with sent := sent } := by
  cases effect with
  | none effect => exact .none (effect.with_sent sent)
  | described present effect =>
      exact .described present (effect.with_sent sent)

end RequestEffect

/-- Every request, whatever the disk does. -/
theorem requestEffect
    (ss : StorageServer)
    (now : Int)
    (request : StorageRequest) :
    RequestEffect ss (ssOperate ss (.request now request)) := by
  obtain ⟨sent, operated⟩ := ssOperate_request_eq ss now request
  rw [operated]
  apply RequestEffect.with_sent
  cases request with
  | read fd msg =>
      simp only [StorageRequest.handler, handleClientRead]
      split
      · next username filename rest =>
        simp only [bind_apply, get_apply]
        cases found : ssFindFile ss.files filename with
        | none => exact .refused _
        | some rec => exact .within found (.readRecord now fd username)
      · exact .refused _
  | stream fd msg =>
      simp only [StorageRequest.handler, handleClientStream]
      split
      · next username filename rest =>
        simp only [bind_apply, get_apply]
        cases found : ssFindFile ss.files filename with
        | none => exact .refused _
        | some rec => exact .within found (.streamRecord now fd username)
      · exact .refused _
  | viewCheckpoint fd msg =>
      simp only [StorageRequest.handler, handleClientViewcheckpoint]
      split
      · next username filename tag rest =>
        simp only [bind_apply, ensure_apply]
        by_cases empty : tagCopy tag = []
        · simp only [empty, ne_eq, not_true_eq_false, decide_false,
            Bool.false_eq_true, ↓reduceIte, refuse_apply]
          exact .refused _
        · simp only [empty, ne_eq, not_false_eq_true, decide_true, ↓reduceIte,
            get_apply]
          cases found : ssFindFile ss.files filename with
          | none => exact .refused _
          | some rec =>
              exact .within found (.viewCheckpointRecord now fd username _)
      · exact .refused _
  | listCheckpoints fd msg =>
      simp only [StorageRequest.handler, handleClientListcheckpoints]
      split
      · next username filename rest =>
        simp only [bind_apply, get_apply]
        cases found : ssFindFile ss.files filename with
        | none => exact .refused _
        | some rec =>
            exact .within found (.listCheckpointsOf now fd username)
      · exact .refused _
  | addAccess msg =>
      simp only [StorageRequest.handler, nsAddAccess]
      split
      · next filename username permToken rest =>
        simp only [bind_apply, get_apply]
        cases found : ssFindFile ss.files filename with
        | none => exact .refused _
        | some rec =>
            simp only [bind_apply, ensure_apply]
            cases asksFor 'r' permToken || asksFor 'w' permToken with
            | false => exact .refused _
            | true => exact .within found (.addAccessTo filename username _ _)
      · exact .refused _
  | remAccess msg =>
      simp only [StorageRequest.handler, nsRemAccess]
      split
      · next filename username rest =>
        simp only [bind_apply, get_apply]
        cases found : ssFindFile ss.files filename with
        | none => exact .refused _
        | some rec => exact .within found (.removeAccessFrom filename username)
      · exact .refused _
  | getStats msg => exact .none (StaysWithin.nsGetStats msg ss)
  | getContent msg => exact .none (StaysWithin.nsGetContent msg ss)

namespace RequestEffect

variable
  {before after : StorageServer}
  (effect : RequestEffect before after)

include effect

theorem storagePath_eq : after.storagePath = before.storagePath := by
  cases effect with
  | none effect => exact effect.storagePath_eq
  | described _ effect => exact effect.storagePath_eq

theorem nextAddress_eq : after.nextAddress = before.nextAddress := by
  cases effect with
  | none effect => exact effect.nextAddress_eq
  | described _ effect => exact effect.nextAddress_eq

theorem sessions_eq : after.sessions = before.sessions := by
  cases effect with
  | none effect => exact effect.sessions_eq trivial
  | described _ effect => exact effect.sessions_eq trivial

theorem avoids_nul : before.disk.Avoids 0 → after.disk.Avoids 0 := by
  cases effect with
  | none effect => exact effect.avoids_nul
  | described _ effect => exact effect.avoids_nul

/-- Only sidecars are written. -/
theorem disk_agrees :
    Disk.AgreesOutside (before.files.map FileRecord.metapath) before.disk
      after.disk := by
  cases effect with
  | none effect => exact effect.disk_agrees.mono (by simp [noScope])
  | described present effect =>
      refine effect.disk_agrees.mono ?_
      simpa [describeScope] using ⟨_, present, rfl⟩

/-- The records are those before, each described as before or anew. -/
theorem files_eq :
    ∃ describe : FileRecord → FileRecord,
      after.files = before.files.map describe ∧
        ((before.files.map FileRecord.address).Nodup →
          ∀ rec ∈ before.files, rec.Redescribes (describe rec)) := by
  have kept :
      after.files = before.files →
        ∃ describe : FileRecord → FileRecord,
          after.files = before.files.map describe ∧
            ((before.files.map FileRecord.address).Nodup →
              ∀ rec ∈ before.files, rec.Redescribes (describe rec)) :=
    fun same =>
      ⟨id, by rw [same, List.map_id], fun _ rec _ => .refl rec⟩
  cases effect with
  | none effect =>
      rcases effect.files_stored with same | ⟨_, _, impossible, _⟩
      · exact kept same
      · exact False.elim impossible
  | @described rec present effect =>
      rcases effect.files_stored with same | ⟨r, atTarget, anew, stored⟩
      · exact kept same
      · refine ⟨fun node => if node.address = r.address then r else node,
          stored, fun addresses node listed => ?_⟩
        simp only
        split
        · next sameAddress =>
          have isRec : node = rec :=
            eq_of_address addresses listed present
              (sameAddress.trans atTarget)
          exact isRec ▸ anew
        · exact .refl node

/-- Records stay in their places. -/
theorem recordsPlaced (placed : RecordsPlaced before) :
    RecordsPlaced after := by
  obtain ⟨describe, files, same⟩ := effect.files_eq
  have anew := same placed.addresses_nodup
  have addresses :
      after.files.map FileRecord.address =
        before.files.map FileRecord.address := by
    rw [files, List.map_map]
    exact List.map_congr_left fun rec listed => (anew rec listed).address_eq
  refine ⟨addresses ▸ placed.addresses_nodup, ?_, ?_⟩
  · intro r listed
    rw [files] at listed
    obtain ⟨rec, present, rfl⟩ := List.mem_map.mp listed
    rw [(anew rec present).address_eq, effect.nextAddress_eq]
    exact placed.addresses_lt rec present
  · intro r listed
    rw [files] at listed
    obtain ⟨rec, present, rfl⟩ := List.mem_map.mp listed
    rw [effect.storagePath_eq]
    exact (anew rec present).wellPlaced (placed.wellPlaced rec present)

end RequestEffect

/-- Every operation keeps records in their places. -/
theorem RecordsPlaced.ssOperate
    {ss : StorageServer}
    (placed : RecordsPlaced ss)
    (operation : StorageOperation) :
    RecordsPlaced (DistributedDocs.ssOperate ss operation) := by
  cases operation with
  | event event => exact placed.ssStep event
  | request now request =>
      exact (requestEffect ss now request).recordsPlaced placed

/-- Every operation on a disk whose operations succeed leaves such a disk. -/
theorem undisturbed_ssOperate
    {ss : StorageServer}
    (undisturbed : ss.disk.outcomes = [])
    (operation : StorageOperation) :
    (ssOperate ss operation).disk.outcomes = [] := by
  cases operation with
  | event event => exact (stepEffect ss event).disk_agrees.undisturbed undisturbed
  | request now request =>
      exact (requestEffect ss now request).disk_agrees.undisturbed undisturbed

end DistributedDocs
