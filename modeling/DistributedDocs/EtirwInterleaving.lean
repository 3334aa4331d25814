import DistributedDocs.CommitOrder
import DistributedDocs.GuardedRun

namespace DistributedDocs

/-!
# Interleavings of `ETIRW` handlers

`handle_client_etirw` reads its session's bounds under `sessions_lock`, lets
that lock go, and uses the bounds later under `file_lock`.  Both sections are
atomic steps here and any handlers may run between them.  A run in which the
bounds are never stale is equivalent to the sequential run of its commits; a
run in which they are may overwrite another client's sentence.
-/

/-- The two sections of the handler serving `clientFd`. -/
inductive EtirwStep where
  | readBounds (clientFd : Nat)
  | commitSection (clientFd : Nat)
  deriving DecidableEq

/-- The client served by a step. -/
def EtirwStep.clientFd : EtirwStep → Nat
  | readBounds clientFd =>
      clientFd
  | commitSection clientFd =>
      clientFd

/-- The file and the bounds that handlers between their sections have read. -/
structure EtirwState where
  view : FileView
  locked : Nat → Option (Nat × Nat)

/-- No handler has begun. -/
def EtirwState.initial (view : FileView) : EtirwState where
  view := view
  locked := fun _ => none

/-- The present bounds of a client's session. -/
def FileView.boundsOf (view : FileView) (clientFd : Nat) :
    Option (Nat × Nat) :=
  (ssFindSession view.sessions clientFd).map fun session =>
    (session.sentenceStart, session.sentenceEnd)

/-- One section; a handler without a session has replied with an error. -/
def etirwStep (state : EtirwState) : EtirwStep → EtirwState
  | .readBounds clientFd =>
      { state with
        locked :=
          Function.update state.locked clientFd
            (state.view.boundsOf clientFd) }
  | .commitSection clientFd =>
      match state.locked clientFd with
      | none =>
          state
      | some (lockedStart, lockedEnd) =>
          { view :=
              state.view.commitSection clientFd lockedStart lockedEnd
            locked := Function.update state.locked clientFd none }

/-- The handler of each session runs to its end exactly once. -/
structure Interleaving (view : FileView) (steps : List EtirwStep) : Prop where
  each :
    ∀ s ∈ view.sessions,
      (steps.filter fun step => step.clientFd = s.clientFd) =
        [.readBounds s.clientFd, .commitSection s.clientFd]
  only :
    ∀ step ∈ steps, ∃ s ∈ view.sessions, s.clientFd = step.clientFd

/-- The content with every locked range replaced by its working text. -/
def FileView.allReplaced (view : FileView) : CString :=
  Slot.replaceRanges 0 view.content
    (view.inOrder.map fun s =>
      (s.sentenceStart, s.sentenceEnd, s.sentenceWorking))

/-- Serve whole handlers one after another. -/
def FileView.commitAll (view : FileView) (order : List Nat) : FileView :=
  order.foldl (fun current clientFd => current.commit clientFd) view

/--
The run of the steps replaces every locked range by its working text, as any
sequential order of the handlers does.
-/
def NoLostEdit (view : FileView) (steps : List EtirwStep) : Prop :=
  (runFrom etirwStep (.initial view) steps).view.content =
      view.allReplaced ∧
    ∀ order : List Nat,
      order.Perm (view.sessions.map WriteSession.clientFd) →
        (view.commitAll order).content = view.allReplaced

/-- The bounds read in the first section are still the session's bounds. -/
def BoundsCurrent (state : EtirwState) : EtirwStep → Prop
  | .readBounds _ =>
      True
  | .commitSection clientFd =>
      state.locked clientFd = state.view.boundsOf clientFd

instance (state : EtirwState) (step : EtirwStep) :
    Decidable (BoundsCurrent state step) :=
  match step with
  | .readBounds _ => isTrue trivial
  | .commitSection clientFd =>
      inferInstanceAs
        (Decidable (state.locked clientFd = state.view.boundsOf clientFd))

/-- The client of a second section. -/
def EtirwStep.committing : EtirwStep → Option Nat
  | readBounds _ =>
      none
  | commitSection clientFd =>
      some clientFd

/-- With current bounds the second section is an undisturbed commit. -/
theorem view_etirwStep_commitSection
    {state : EtirwState}
    {clientFd : Nat}
    (current : BoundsCurrent state (.commitSection clientFd)) :
    (etirwStep state (.commitSection clientFd)).view =
      state.view.commit clientFd := by
  simp only [BoundsCurrent, FileView.boundsOf] at current
  cases found : ssFindSession state.view.sessions clientFd with
  | none =>
      rw [found] at current
      simp [etirwStep, FileView.commit, current, found]
  | some session =>
      rw [found] at current
      simp [etirwStep, FileView.commit, current, found]

/-- A run with current bounds is the sequential run of its commits. -/
theorem view_runFrom_eq_commitAll
    {state : EtirwState}
    {steps : List EtirwStep}
    (current : GuardedRun etirwStep BoundsCurrent state steps) :
    (runFrom etirwStep state steps).view =
      state.view.commitAll (steps.filterMap EtirwStep.committing) := by
  induction steps generalizing state with
  | nil =>
      rfl
  | cons step rest inductionHypothesis =>
      obtain ⟨currentHere, currentLater⟩ := current
      rw [runFrom_cons, inductionHypothesis currentLater]
      cases step with
      | readBounds clientFd =>
          rfl
      | commitSection clientFd =>
          rw [view_etirwStep_commitSection currentHere]
          rfl

namespace Interleaving

variable
  {view : FileView}
  {steps : List EtirwStep}

/-- Every client commits exactly once. -/
theorem count_committing
    (interleaving : Interleaving view steps)
    {s : WriteSession}
    (member : s ∈ view.sessions) :
    (steps.filterMap EtirwStep.committing).count s.clientFd = 1 := by
  have served :
      ∀ step ∈ steps,
        ((step.committing == some s.clientFd) = true ↔
          (step.committing == some s.clientFd &&
            decide (step.clientFd = s.clientFd)) = true) := by
    intro step _
    have sameClient :
        step.committing = some s.clientFd → step.clientFd = s.clientFd := by
      cases step <;> simp [EtirwStep.committing, EtirwStep.clientFd]
    simp only [beq_iff_eq, Bool.and_eq_true, decide_eq_true_eq]
    exact ⟨fun commits => ⟨commits, sameClient commits⟩, And.left⟩
  rw [List.count_filterMap, List.countP_congr served, ← List.countP_filter,
    interleaving.each s member]
  simp [EtirwStep.committing]

/-- The commits of an interleaving are those of its clients in some order. -/
theorem committing_perm
    (interleaving : Interleaving view steps)
    (clientsNodup : (view.sessions.map WriteSession.clientFd).Nodup) :
    (steps.filterMap EtirwStep.committing).Perm
      (view.sessions.map WriteSession.clientFd) := by
  have members :
      ∀ clientFd,
        clientFd ∈ steps.filterMap EtirwStep.committing →
          ∃ s ∈ view.sessions, s.clientFd = clientFd := by
    intro clientFd member
    obtain ⟨step, present, commits⟩ := List.mem_filterMap.mp member
    cases step with
    | readBounds other =>
        simp [EtirwStep.committing] at commits
    | commitSection other =>
        simp only [EtirwStep.committing, Option.some.injEq] at commits
        subst commits
        exact interleaving.only _ present
  have nodup : (steps.filterMap EtirwStep.committing).Nodup := by
    rw [List.nodup_iff_count_le_one]
    intro clientFd
    by_cases member : clientFd ∈ steps.filterMap EtirwStep.committing
    · obtain ⟨s, present, rfl⟩ := members clientFd member
      exact (interleaving.count_committing present).le
    · simp [List.count_eq_zero_of_not_mem member]
  rw [List.perm_ext_iff_of_nodup nodup clientsNodup]
  intro clientFd
  constructor
  · intro member
    obtain ⟨s, present, rfl⟩ := members clientFd member
    exact List.mem_map_of_mem present
  · intro member
    obtain ⟨s, present, rfl⟩ := List.mem_map.mp member
    rw [← List.count_pos_iff, interleaving.count_committing present]
    exact Nat.one_pos

end Interleaving

/-- The working text of a client's session. -/
def FileView.workingOf (view : FileView) (clientFd : Nat) : CString :=
  match ssFindSession view.sessions clientFd with
  | some session => session.sentenceWorking
  | none => []

namespace Tracks

variable
  {view : FileView}
  {slots : SentenceSlots}
  {tail : CString}

/-- Sequential commits fill the slots of their clients. -/
theorem content_commitAll
    (tracks : Tracks view slots tail)
    {working : Nat → CString}
    (texts :
      ∀ s ∈ view.sessions, working s.clientFd = s.sentenceWorking)
    {order : List Nat}
    (nodup : order.Nodup)
    (clients :
      ∀ clientFd ∈ order, ∃ s ∈ view.sessions, s.clientFd = clientFd) :
    (view.commitAll order).content =
      Slot.render
        (Slot.fillWhere (fun clientFd => clientFd ∈ order) working slots)
        tail := by
  induction order generalizing view slots with
  | nil =>
      simp [FileView.commitAll, Slot.fillWhere, tracks.content_eq]
  | cons clientFd rest inductionHypothesis =>
      rw [List.nodup_cons] at nodup
      obtain ⟨s, member, rfl⟩ := clients clientFd (by simp)
      have remainingTexts :
          ∀ t ∈ (view.commit s.clientFd).sessions,
            working t.clientFd = t.sentenceWorking := by
        intro t remaining
        rw [tracks.commit_eq member] at remaining
        obtain ⟨u, kept, rfl⟩ := List.mem_map.mp remaining
        simpa using texts u (List.mem_of_mem_filter kept)
      have remainingClients :
          ∀ other ∈ rest,
            ∃ t ∈ (view.commit s.clientFd).sessions,
              t.clientFd = other := by
        intro other later
        obtain ⟨t, present, rfl⟩ := clients other (by simp [later])
        have different : t.clientFd ≠ s.clientFd := by
          intro same
          exact nodup.1 (same ▸ later)
        exact ⟨view.afterCommit s t,
          tracks.mem_commit member present different, by simp⟩
      have served :=
        inductionHypothesis (tracks.commit member) remainingTexts nodup.2
          remainingClients
      have begun :
          view.commitAll (s.clientFd :: rest) =
            (view.commit s.clientFd).commitAll rest :=
        rfl
      rw [begun, served, ← texts s member]
      congr 1
      simp only [Slot.fillWhere, Slot.fill, List.map_map]
      apply List.map_congr_left
      intro slot _
      simp only [Function.comp_apply]
      by_cases here : slot.key = s.clientFd
      · simp [here, nodup.1]
      · simp [here]

end Tracks

namespace OpenedOnSentences

variable {view : FileView}

/-- Every sequential order of the handlers replaces all locked ranges. -/
theorem content_commitAll
    (opened : OpenedOnSentences view)
    {order : List Nat}
    (everyone :
      order.Perm (view.sessions.map WriteSession.clientFd)) :
    (view.commitAll order).content = view.allReplaced := by
  have texts :
      ∀ s ∈ view.sessions,
        view.workingOf s.clientFd = s.sentenceWorking := by
    intro s member
    rw [FileView.workingOf,
      ssFindSession_eq_some opened.clients_nodup member]
  have clients :
      ∀ clientFd ∈ order, ∃ s ∈ view.sessions, s.clientFd = clientFd := by
    intro clientFd member
    obtain ⟨s, present, same⟩ :=
      List.mem_map.mp (everyone.mem_iff.mp member)
    exact ⟨s, present, same⟩
  have allDone :
      ∀ range ∈ view.lockedRanges,
        decide (range.1 ∈ order) = true := by
    intro range member
    obtain ⟨s, present, rfl⟩ := List.mem_map.mp member
    simp only [decide_eq_true_eq]
    exact everyone.mem_iff.mpr
      (List.mem_map_of_mem (FileView.mem_inOrder.mp present))
  have replacements :
      view.lockedRanges.map
          (fun range =>
            (range.2.1, range.2.2, view.workingOf range.1)) =
        view.inOrder.map fun s =>
          (s.sentenceStart, s.sentenceEnd, s.sentenceWorking) := by
    rw [FileView.lockedRanges, List.map_map]
    apply List.map_congr_left
    intro s member
    simp [texts s (FileView.mem_inOrder.mp member)]
  rw [opened.tracks.content_commitAll texts
      (everyone.nodup_iff.mpr opened.clients_nodup) clients,
    FileView.allReplaced, ← replacements]
  exact Slot.render_fillWhere_carve view.workingOf allDone 0 view.content

end OpenedOnSentences

/--
If no handler splices at bounds that another commit has moved since it read
them, no edit is lost or misplaced.
-/
theorem noLostEdit_of_boundsCurrent
    {view : FileView}
    (opened : OpenedOnSentences view)
    {steps : List EtirwStep}
    (interleaving : Interleaving view steps)
    (current :
      GuardedRun etirwStep BoundsCurrent (.initial view) steps) :
    NoLostEdit view steps := by
  have everyone := interleaving.committing_perm opened.clients_nodup
  refine ⟨?_, fun order perm => opened.content_commitAll perm⟩
  rw [view_runFrom_eq_commitAll current]
  exact opened.content_commitAll everyone

/-- Handlers that overlap while the later sentences commit first. -/
def laterSentenceFirst : List EtirwStep :=
  [ .readBounds 4, .readBounds 5, .readBounds 6,
    .commitSection 6, .commitSection 5, .commitSection 4 ]

theorem noLostEdit_laterSentenceFirst :
    NoLostEdit threeWriters laterSentenceFirst :=
  noLostEdit_of_boundsCurrent threeWriters_opened
    ⟨by decide, by decide⟩
    ⟨trivial, trivial, trivial, by decide, by decide, by decide, trivial⟩

/-- The second writer's bounds go stale while the first writer commits. -/
def firstSentenceBetween : List EtirwStep :=
  [ .readBounds 5, .readBounds 4, .commitSection 4, .commitSection 5,
    .readBounds 6, .commitSection 6 ]

/-- Stale bounds put the second sentence into the middle of the first. -/
theorem lost_edit_firstSentenceBetween :
    ¬∀ (view : FileView) (steps : List EtirwStep),
        OpenedOnSentences view → Interleaving view steps →
          NoLostEdit view steps := by
  intro always
  have claimed :=
    always threeWriters firstSentenceBetween threeWriters_opened
      ⟨by decide, by decide⟩
  have reached :
      (runFrom etirwStep (.initial threeWriters)
          firstSentenceBetween).view.content ≠
        (threeWriters.commitAll [4, 5, 6]).content := by
    decide
  exact reached
    (claimed.1.trans (claimed.2 [4, 5, 6] (List.Perm.refl _)).symm)

end DistributedDocs
