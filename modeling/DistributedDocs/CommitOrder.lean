import DistributedDocs.SessionSlots

namespace DistributedDocs

/-!
# Commits on different sentences commute

Two commits fill two different slots.  The content and the offsets of every
remaining session are then functions of the filled slots; only the sentence
index, which the source clamps at zero, needs an argument about its size.
-/

instance
    {first second : Nat}
    {slots : SentenceSlots} :
    Decidable (Slot.Precedes first second slots) :=
  inferInstanceAs (Decidable (List.Sublist _ _))

/-- Two shifts by at least -1 commute on an index that is at least two. -/
theorem shiftedIndex_comm
    {first second index : Int}
    (firstSmall : -1 ≤ first)
    (secondSmall : -1 ≤ second)
    (room : 2 ≤ index) :
    shiftedIndex first (shiftedIndex second index) =
      shiftedIndex second (shiftedIndex first index) := by
  unfold shiftedIndex
  split_ifs <;> omega

namespace Tracks

variable
  {view : FileView}
  {slots : SentenceSlots}
  {tail : CString}

/-- The index of a remaining session after a commit. -/
theorem sentenceIndex_afterCommit
    (tracks : Tracks view slots tail)
    {s u : WriteSession}
    (sMember : s ∈ view.sessions)
    (uMember : u ∈ view.sessions)
    (different : u.clientFd ≠ s.clientFd) :
    (view.afterCommit s u).sentenceIndex =
      if Slot.Precedes s.clientFd u.clientFd slots then
        shiftedIndex (sentenceCount s.sentenceWorking - 1) u.sentenceIndex
      else
        u.sentenceIndex := by
  by_cases before : Slot.Precedes s.clientFd u.clientFd slots
  · rw [if_pos before,
      tracks.afterCommit_of_precedes sMember uMember different before]
    rfl
  · have after :=
      (Slot.precedes_total (tracks.has_slot s sMember)
        (tracks.has_slot u uMember) different.symm).resolve_left before
    rw [if_neg before, tracks.afterCommit_of_preceded sMember uMember after]

/-- The other sessions stay open, in their new form. -/
theorem mem_commit
    (tracks : Tracks view slots tail)
    {s u : WriteSession}
    (sMember : s ∈ view.sessions)
    (uMember : u ∈ view.sessions)
    (different : u.clientFd ≠ s.clientFd) :
    view.afterCommit s u ∈ (view.commit s.clientFd).sessions := by
  rw [tracks.commit_eq sMember]
  exact List.mem_map_of_mem
    (List.mem_filter.mpr ⟨uMember, by simpa using different⟩)

/-- Two commits in a row fill two slots and adjust the rest twice. -/
theorem commit_commit
    (tracks : Tracks view slots tail)
    {s t : WriteSession}
    (sMember : s ∈ view.sessions)
    (tMember : t ∈ view.sessions)
    (different : t.clientFd ≠ s.clientFd) :
    (view.commit s.clientFd).commit t.clientFd =
      { view with
        content :=
          Slot.render
            (Slot.fill t.clientFd t.sentenceWorking
              (Slot.fill s.clientFd s.sentenceWorking slots)) tail
        sessions :=
          (view.sessions.filter fun u =>
              u.clientFd ≠ s.clientFd ∧ u.clientFd ≠ t.clientFd).map
            ((view.commit s.clientFd).afterCommit (view.afterCommit s t) ∘
              view.afterCommit s) } := by
  have tRemains := tracks.mem_commit sMember tMember different
  have second := (tracks.commit sMember).commit_eq tRemains
  have remaining :
      (view.commit s.clientFd).sessions.filter
          (fun u => u.clientFd ≠ t.clientFd) =
        (view.sessions.filter fun u =>
            u.clientFd ≠ s.clientFd ∧ u.clientFd ≠ t.clientFd).map
          (view.afterCommit s) := by
    rw [tracks.commit_eq sMember]
    simp only
    rw [List.filter_map, List.filter_filter]
    congr 1
    apply List.filter_congr
    intro u _
    simp [Bool.and_comm]
  rw [FileView.clientFd_afterCommit,
    FileView.sentenceWorking_afterCommit] at second
  rw [second, remaining, List.map_map, tracks.commit_eq sMember]

/-- The byte range of a session after two commits. -/
theorem bounds_after_two
    (tracks : Tracks view slots tail)
    {s t u : WriteSession}
    (sMember : s ∈ view.sessions)
    (tMember : t ∈ view.sessions)
    (uMember : u ∈ view.sessions)
    (different : t.clientFd ≠ s.clientFd)
    (notFirst : u.clientFd ≠ s.clientFd)
    (notSecond : u.clientFd ≠ t.clientFd) :
    let twice :=
      (view.commit s.clientFd).afterCommit (view.afterCommit s t)
        (view.afterCommit s u)
    let filled :=
      Slot.fill t.clientFd t.sentenceWorking
        (Slot.fill s.clientFd s.sentenceWorking slots)
    twice.sentenceStart = Slot.offset u.clientFd filled ∧
      twice.sentenceEnd =
        Slot.offset u.clientFd filled +
          (Slot.bodyOf u.clientFd slots).length := by
  have tRemains := tracks.mem_commit sMember tMember different
  have uRemains := tracks.mem_commit sMember uMember notFirst
  have apart :
      (view.afterCommit s u).clientFd ≠ (view.afterCommit s t).clientFd := by
    simpa using notSecond
  have placed := (tracks.commit sMember).afterCommit_bounds tRemains uRemains apart
  simpa only [FileView.clientFd_afterCommit,
    FileView.sentenceWorking_afterCommit,
    Slot.bodyOf_fill_other notFirst] using placed

/-- The index of a session after two commits. -/
theorem sentenceIndex_after_two
    (tracks : Tracks view slots tail)
    {s t u : WriteSession}
    (sMember : s ∈ view.sessions)
    (tMember : t ∈ view.sessions)
    (uMember : u ∈ view.sessions)
    (different : t.clientFd ≠ s.clientFd)
    (notFirst : u.clientFd ≠ s.clientFd)
    (notSecond : u.clientFd ≠ t.clientFd) :
    ((view.commit s.clientFd).afterCommit (view.afterCommit s t)
        (view.afterCommit s u)).sentenceIndex =
      if Slot.Precedes t.clientFd u.clientFd slots then
        shiftedIndex (sentenceCount t.sentenceWorking - 1)
          (view.afterCommit s u).sentenceIndex
      else
        (view.afterCommit s u).sentenceIndex := by
  have tRemains := tracks.mem_commit sMember tMember different
  have uRemains := tracks.mem_commit sMember uMember notFirst
  have apart :
      (view.afterCommit s u).clientFd ≠ (view.afterCommit s t).clientFd := by
    simpa using notSecond
  have counted :=
    (tracks.commit sMember).sentenceIndex_afterCommit tRemains uRemains apart
  simpa using counted

end Tracks

namespace OpenedOnSentences

variable {view : FileView}

/-- A third session's index does not depend on the order of two commits. -/
theorem sentenceIndex_comm
    (opened : OpenedOnSentences view)
    {s t u : WriteSession}
    (sMember : s ∈ view.sessions)
    (tMember : t ∈ view.sessions)
    (uMember : u ∈ view.sessions)
    (different : t.clientFd ≠ s.clientFd)
    (notFirst : u.clientFd ≠ s.clientFd)
    (notSecond : u.clientFd ≠ t.clientFd) :
    ((view.commit s.clientFd).afterCommit (view.afterCommit s t)
        (view.afterCommit s u)).sentenceIndex =
      ((view.commit t.clientFd).afterCommit (view.afterCommit t s)
        (view.afterCommit t u)).sentenceIndex := by
  have tracks := opened.tracks
  rw [tracks.sentenceIndex_after_two sMember tMember uMember different
      notFirst notSecond,
    tracks.sentenceIndex_after_two tMember sMember uMember different.symm
      notSecond notFirst,
    tracks.sentenceIndex_afterCommit sMember uMember notFirst,
    tracks.sentenceIndex_afterCommit tMember uMember notSecond]
  by_cases first : Slot.Precedes s.clientFd u.clientFd view.slots
  · by_cases second : Slot.Precedes t.clientFd u.clientFd view.slots
    · simp only [first, second, ↓reduceIte]
      have firstLower := opened.index_lt_of_precedes sMember uMember first
      have secondLower := opened.index_lt_of_precedes tMember uMember second
      have firstNonneg :=
        ssGetSentenceBounds_nonneg (opened.bounds s sMember)
      have secondNonneg :=
        ssGetSentenceBounds_nonneg (opened.bounds t tMember)
      have distinct : s.sentenceIndex ≠ t.sentenceIndex := by
        intro same
        have equal :=
          List.inj_on_of_nodup_map opened.indexes_nodup sMember tMember same
        exact different (by rw [equal])
      exact shiftedIndex_comm (by omega) (by omega) (by omega)
    · simp only [first, second, ↓reduceIte]
  · simp only [first, ↓reduceIte]

end OpenedOnSentences

/--
The commit of `clientFd` leaves unchanged the bytes that every other session's
range selects, although it may move that range.
-/
def CommitKeepsOthers (view : FileView) (clientFd : Nat) : Prop :=
  ∀ u ∈ view.sessions, u.clientFd ≠ clientFd →
    ∃ moved ∈ (view.commit clientFd).sessions,
      moved.clientFd = u.clientFd ∧
        (view.commit clientFd).selected moved = view.selected u

theorem Tracks.commitKeepsOthers
    {view : FileView}
    {slots : SentenceSlots}
    {tail : CString}
    (tracks : Tracks view slots tail)
    {s : WriteSession}
    (member : s ∈ view.sessions) :
    CommitKeepsOthers view s.clientFd := by
  intro u uMember different
  have remains := tracks.mem_commit member uMember different
  refine ⟨view.afterCommit s u, remains, by simp, ?_⟩
  rw [(tracks.commit member).selected_eq remains, tracks.selected_eq uMember,
    FileView.clientFd_afterCommit, Slot.bodyOf_fill_other different]

/--
Commits of sessions opened on distinct sentences commute, whatever the working
texts are, and neither touches the bytes another session has locked.
-/
theorem commits_commute
    {view : FileView}
    (opened : OpenedOnSentences view)
    {s t : WriteSession}
    (sMember : s ∈ view.sessions)
    (tMember : t ∈ view.sessions)
    (different : s.clientFd ≠ t.clientFd) :
    (view.commit s.clientFd).commit t.clientFd =
        (view.commit t.clientFd).commit s.clientFd ∧
      CommitKeepsOthers view s.clientFd ∧
      CommitKeepsOthers (view.commit s.clientFd) t.clientFd := by
  have tracks := opened.tracks
  have tRemains := tracks.mem_commit sMember tMember different.symm
  have keepsSecond := (tracks.commit sMember).commitKeepsOthers tRemains
  rw [FileView.clientFd_afterCommit] at keepsSecond
  refine ⟨?_, tracks.commitKeepsOthers sMember, keepsSecond⟩
  rw [tracks.commit_commit sMember tMember different.symm,
    tracks.commit_commit tMember sMember different,
    Slot.fill_comm different]
  have sameKept :
      (view.sessions.filter fun u =>
          u.clientFd ≠ s.clientFd ∧ u.clientFd ≠ t.clientFd) =
        view.sessions.filter fun u =>
          u.clientFd ≠ t.clientFd ∧ u.clientFd ≠ s.clientFd := by
    simp only [and_comm]
  rw [sameKept]
  congr 1
  apply List.map_congr_left
  intro u kept
  obtain ⟨uMember, apart⟩ := List.mem_filter.mp kept
  simp only [ne_eq, decide_eq_true_eq] at apart
  have firstBounds :=
    tracks.bounds_after_two sMember tMember uMember different.symm apart.2
      apart.1
  have secondBounds :=
    tracks.bounds_after_two tMember sMember uMember different apart.1 apart.2
  have index :=
    opened.sentenceIndex_comm sMember tMember uMember different.symm apart.2
      apart.1
  rw [Slot.fill_comm different] at firstBounds
  have start := firstBounds.1.trans secondBounds.1.symm
  have stop := firstBounds.2.trans secondBounds.2.symm
  ext1
  all_goals first
    | exact start
    | exact stop
    | exact index
    | simp

/-- Growing the first sentence to two and rewriting the second commute. -/
theorem commits_commute_threeWriters :
    (threeWriters.commit 4).commit 5 = (threeWriters.commit 5).commit 4 ∧
      CommitKeepsOthers threeWriters 4 ∧
      CommitKeepsOthers (threeWriters.commit 4) 5 :=
  commits_commute
    (s := openedSession 4 0 0 2 (str "Hello! A."))
    (t := openedSession 5 1 3 5 (str "B again."))
    threeWriters_opened (by decide) (by decide) (by decide)

end DistributedDocs
