import DistributedDocs.WriteSession

namespace DistributedDocs

/-!
# The open sessions of a file as slots of its text

The sessions record byte offsets.  `Tracks` relates them to slots of the text,
one for each locked sentence; a commit then fills the slot of its client, and
all the offset arithmetic of the source becomes a fact about slots.
-/

/-- The slots of a file's text, owned by the clients that locked them. -/
abbrev SentenceSlots := List (Slot Nat CChar)

/-- The sessions of the view stand at the slots of their clients. -/
structure Tracks
    (view : FileView)
    (slots : SentenceSlots)
    (tail : CString) : Prop where
  content_eq : view.content = Slot.render slots tail
  slots_nodup : (Slot.keys slots).Nodup
  clients_nodup : (view.sessions.map WriteSession.clientFd).Nodup
  file_eq : ∀ s ∈ view.sessions, s.file = view.file
  has_slot : ∀ s ∈ view.sessions, s.clientFd ∈ Slot.keys slots
  start_eq :
    ∀ s ∈ view.sessions, s.sentenceStart = Slot.offset s.clientFd slots
  end_eq :
    ∀ s ∈ view.sessions,
      s.sentenceEnd =
        Slot.offset s.clientFd slots + (Slot.bodyOf s.clientFd slots).length
  complete_before :
    ∀ s ∈ view.sessions, ∀ t ∈ view.sessions,
      Slot.Precedes s.clientFd t.clientFd slots →
        sentenceCount (Slot.bodyOf s.clientFd slots) = 1

/-- Sessions of one client in a table without duplicates are the same. -/
theorem session_eq_of_clientFd
    {sessions : List WriteSession}
    (nodup : (sessions.map WriteSession.clientFd).Nodup)
    {s t : WriteSession}
    (sMember : s ∈ sessions)
    (tMember : t ∈ sessions)
    (same : s.clientFd = t.clientFd) :
    s = t :=
  List.inj_on_of_nodup_map nodup sMember tMember same

theorem ssFindSession_eq_some
    {sessions : List WriteSession}
    (nodup : (sessions.map WriteSession.clientFd).Nodup)
    {s : WriteSession}
    (member : s ∈ sessions) :
    ssFindSession sessions s.clientFd = some s := by
  cases found : ssFindSession sessions s.clientFd with
  | none =>
      have absent := List.find?_eq_none.mp found s member
      simp at absent
  | some t =>
      have tMember := List.mem_of_find?_eq_some found
      have matched := List.find?_some found
      rw [session_eq_of_clientFd nodup tMember member (by simpa using matched)]

/-- Detaching removes exactly the client's session. -/
theorem ssDetachSession_eq_filter
    {sessions : List WriteSession}
    (nodup : (sessions.map WriteSession.clientFd).Nodup)
    (clientFd : Nat) :
    ssDetachSession sessions clientFd =
      sessions.filter fun s => s.clientFd ≠ clientFd := by
  induction sessions with
  | nil =>
      rfl
  | cons s rest inductionHypothesis =>
      rw [List.map_cons, List.nodup_cons] at nodup
      have recursive := inductionHypothesis nodup.2
      simp only [ssDetachSession] at recursive ⊢
      by_cases here : s.clientFd = clientFd
      · have absent : ∀ t ∈ rest, t.clientFd ≠ clientFd := by
          intro t member same
          apply nodup.1
          rw [here, ← same]
          exact List.mem_map_of_mem member
        rw [List.eraseP_cons_of_pos (by simpa using here),
          List.filter_cons_of_neg (by simpa using here),
          List.filter_eq_self.mpr (by simpa using absent)]
      · rw [List.eraseP_cons_of_neg (by simpa using here),
          List.filter_cons_of_pos (by simpa using here), recursive]

namespace FileView

/-- The other sessions' change when `session` commits in `view`. -/
def afterCommit (view : FileView) (session : WriteSession) :
    WriteSession → WriteSession :=
  WriteSession.afterEdit view.file session.sentenceStart
    (session.sentenceEnd - session.sentenceStart)
    session.sentenceWorking.length
    (etirwSentenceDelta view.content session.sentenceStart
      session.sentenceEnd session.sentenceWorking)
    session.clientFd

@[simp] theorem clientFd_afterCommit (view : FileView) (s t : WriteSession) :
    (view.afterCommit s t).clientFd = t.clientFd := by
  simp [afterCommit]

@[simp] theorem file_afterCommit (view : FileView) (s t : WriteSession) :
    (view.afterCommit s t).file = t.file := by
  simp [afterCommit]

@[simp] theorem username_afterCommit (view : FileView) (s t : WriteSession) :
    (view.afterCommit s t).username = t.username := by
  simp [afterCommit]

@[simp] theorem fileSnapshot_afterCommit (view : FileView) (s t : WriteSession) :
    (view.afterCommit s t).fileSnapshot = t.fileSnapshot := by
  simp [afterCommit]

@[simp] theorem sentenceWorking_afterCommit (view : FileView) (s t : WriteSession) :
    (view.afterCommit s t).sentenceWorking = t.sentenceWorking := by
  simp [afterCommit]

/-- The bytes of the content that a session's range selects. -/
def selected (view : FileView) (s : WriteSession) : CString :=
  slice view.content s.sentenceStart s.sentenceEnd

end FileView

namespace Tracks

variable
  {view : FileView}
  {slots : SentenceSlots}
  {tail : CString}

/-- A session's range selects the body of its slot. -/
theorem selected_eq
    (tracks : Tracks view slots tail)
    {s : WriteSession}
    (member : s ∈ view.sessions) :
    view.selected s = Slot.bodyOf s.clientFd slots := by
  rw [FileView.selected, tracks.content_eq, tracks.start_eq s member,
    tracks.end_eq s member]
  exact Slot.slice_render (tracks.has_slot s member) tail

/-- "Invalid sentence bounds" is never the answer. -/
theorem valid_bounds
    (tracks : Tracks view slots tail)
    {s : WriteSession}
    (member : s ∈ view.sessions) :
    invalidSentenceBounds view.content s.sentenceStart s.sentenceEnd =
      false := by
  have bound :
      Slot.offset s.clientFd slots +
          (Slot.bodyOf s.clientFd slots).length ≤
        (Slot.render slots tail).length :=
    Slot.offset_add_length_le (tracks.has_slot s member) tail
  rw [← tracks.content_eq, ← tracks.end_eq s member] at bound
  have ordered : s.sentenceStart ≤ s.sentenceEnd := by
    rw [tracks.start_eq s member, tracks.end_eq s member]
    omega
  simp only [invalidSentenceBounds, Bool.or_eq_false_iff,
    decide_eq_false_iff_not]
  omega

/-- The sentence delta in terms of the slot being filled. -/
theorem etirwSentenceDelta_eq
    (tracks : Tracks view slots tail)
    {s : WriteSession}
    (member : s ∈ view.sessions) :
    etirwSentenceDelta view.content s.sentenceStart s.sentenceEnd
        s.sentenceWorking =
      sentenceCount s.sentenceWorking -
        sentenceCount (Slot.bodyOf s.clientFd slots) := by
  have valid := tracks.valid_bounds member
  simp only [invalidSentenceBounds, Bool.or_eq_false_iff,
    decide_eq_false_iff_not] at valid
  have bodySelected := tracks.selected_eq member
  rw [FileView.selected] at bodySelected
  have counted :
      countSentencesInSpan view.content s.sentenceStart s.sentenceEnd =
        sentenceCount (Slot.bodyOf s.clientFd slots) := by
    rw [countSentencesInSpan_eq (by omega), bodySelected]
  rw [etirwSentenceDelta, counted]
  rfl

/-- The splice of a commit fills the committing client's slot. -/
theorem splice_eq
    (tracks : Tracks view slots tail)
    {s : WriteSession}
    (member : s ∈ view.sessions) :
    splice view.content s.sentenceStart s.sentenceEnd s.sentenceWorking =
      Slot.render (Slot.fill s.clientFd s.sentenceWorking slots) tail := by
  rw [tracks.content_eq, tracks.start_eq s member, tracks.end_eq s member]
  exact (Slot.render_fill (tracks.has_slot s member) tracks.slots_nodup
    _ _).symm

/-- A commit is a filling of the committing client's slot. -/
theorem commit_eq
    (tracks : Tracks view slots tail)
    {s : WriteSession}
    (member : s ∈ view.sessions) :
    view.commit s.clientFd =
      { view with
        content :=
          Slot.render (Slot.fill s.clientFd s.sentenceWorking slots) tail
        sessions :=
          (view.sessions.filter fun t => t.clientFd ≠ s.clientFd).map
            (view.afterCommit s) } := by
  have found := ssFindSession_eq_some tracks.clients_nodup member
  have spliced := tracks.splice_eq member
  have updatedNodup :
      ((view.sessions.map (view.afterCommit s)).map
        WriteSession.clientFd).Nodup := by
    rw [List.map_map]
    have unchanged :
        WriteSession.clientFd ∘ view.afterCommit s =
          WriteSession.clientFd := by
      funext t
      simp
    rw [unchanged]
    exact tracks.clients_nodup
  have detached :
      ssDetachSession (view.sessions.map (view.afterCommit s)) s.clientFd =
        (view.sessions.filter fun t => t.clientFd ≠ s.clientFd).map
          (view.afterCommit s) := by
    rw [ssDetachSession_eq_filter updatedNodup, List.filter_map]
    congr 1
    apply List.filter_congr
    intro t _
    simp
  simp only [FileView.commit, FileView.commitSection, found,
    tracks.valid_bounds member, Bool.false_eq_true, ↓reduceIte, spliced,
    ssUpdateActiveSessions]
  exact congrArg _ detached

/-- The end of the committing session's range, as the loop tests it. -/
theorem editEnd_eq
    (tracks : Tracks view slots tail)
    {s : WriteSession}
    (member : s ∈ view.sessions) :
    s.sentenceStart + (s.sentenceEnd - s.sentenceStart) =
      Slot.offset s.clientFd slots +
        (Slot.bodyOf s.clientFd slots).length := by
  rw [tracks.start_eq s member, tracks.end_eq s member]
  omega

/-- A commit leaves the sessions of earlier sentences alone. -/
theorem afterCommit_of_preceded
    (tracks : Tracks view slots tail)
    {s t : WriteSession}
    (sMember : s ∈ view.sessions)
    (tMember : t ∈ view.sessions)
    (before : Slot.Precedes t.clientFd s.clientFd slots) :
    view.afterCommit s t = t := by
  have complete := tracks.complete_before t tMember s sMember before
  have nonempty : 0 < (Slot.bodyOf t.clientFd slots).length :=
    List.length_pos_iff.mpr (ne_nil_of_sentenceCount complete)
  obtain ⟨apart, _⟩ :=
    Slot.offset_fill_of_precedes tracks.slots_nodup before s.sentenceWorking
  have notBehind :
      ¬t.sentenceStart ≥
        s.sentenceStart + (s.sentenceEnd - s.sentenceStart) := by
    rw [tracks.editEnd_eq sMember, tracks.start_eq t tMember]
    omega
  rw [FileView.afterCommit, WriteSession.afterEdit, if_neg notBehind, ite_self]

/-- A commit shifts the sessions of later sentences. -/
theorem afterCommit_of_precedes
    (tracks : Tracks view slots tail)
    {s t : WriteSession}
    (sMember : s ∈ view.sessions)
    (tMember : t ∈ view.sessions)
    (different : t.clientFd ≠ s.clientFd)
    (before : Slot.Precedes s.clientFd t.clientFd slots) :
    view.afterCommit s t =
      t.shifted
        (s.sentenceWorking.length -
          (Slot.bodyOf s.clientFd slots).length)
        (sentenceCount s.sentenceWorking - 1) := by
  have complete := tracks.complete_before s sMember t tMember before
  obtain ⟨apart, _⟩ :=
    Slot.offset_fill_of_precedes tracks.slots_nodup before t.sentenceWorking
  have behind :
      t.sentenceStart ≥
        s.sentenceStart + (s.sentenceEnd - s.sentenceStart) := by
    rw [tracks.editEnd_eq sMember, tracks.start_eq t tMember]
    omega
  have oldLength :
      s.sentenceEnd - s.sentenceStart =
        (Slot.bodyOf s.clientFd slots).length := by
    rw [tracks.start_eq s sMember, tracks.end_eq s sMember]
    omega
  have notExcluded :
      ¬(t.clientFd = s.clientFd ∨ t.file ≠ view.file) := by
    simp [different, tracks.file_eq t tMember]
  rw [FileView.afterCommit, WriteSession.afterEdit, if_neg notExcluded,
    if_pos behind, tracks.etirwSentenceDelta_eq sMember, complete, oldLength]
  rfl

/-- Every remaining session keeps standing at its slot. -/
theorem afterCommit_bounds
    (tracks : Tracks view slots tail)
    {s t : WriteSession}
    (sMember : s ∈ view.sessions)
    (tMember : t ∈ view.sessions)
    (different : t.clientFd ≠ s.clientFd) :
    (view.afterCommit s t).sentenceStart =
        Slot.offset t.clientFd
          (Slot.fill s.clientFd s.sentenceWorking slots) ∧
      (view.afterCommit s t).sentenceEnd =
        Slot.offset t.clientFd
            (Slot.fill s.clientFd s.sentenceWorking slots) +
          (Slot.bodyOf t.clientFd slots).length := by
  have start := tracks.start_eq t tMember
  have stop := tracks.end_eq t tMember
  rcases Slot.precedes_total (tracks.has_slot s sMember)
      (tracks.has_slot t tMember) different.symm with before | after
  · rw [tracks.afterCommit_of_precedes sMember tMember different before]
    have moved :=
      Slot.offset_fill_of_preceded tracks.slots_nodup before
        s.sentenceWorking
    obtain ⟨apart, _⟩ :=
      Slot.offset_fill_of_precedes tracks.slots_nodup before
        t.sentenceWorking
    simp only [WriteSession.shifted]
    omega
  · rw [tracks.afterCommit_of_preceded sMember tMember after]
    obtain ⟨_, unmoved⟩ :=
      Slot.offset_fill_of_precedes tracks.slots_nodup after
        s.sentenceWorking
    rw [unmoved]
    exact ⟨start, stop⟩

/-- A commit keeps sessions and slots together. -/
theorem commit
    (tracks : Tracks view slots tail)
    {s : WriteSession}
    (member : s ∈ view.sessions) :
    Tracks (view.commit s.clientFd)
      (Slot.fill s.clientFd s.sentenceWorking slots) tail := by
  rw [tracks.commit_eq member]
  have origin :
      ∀ t ∈ (view.sessions.filter fun t => t.clientFd ≠ s.clientFd).map
          (view.afterCommit s),
        ∃ u ∈ view.sessions,
          u.clientFd ≠ s.clientFd ∧ t = view.afterCommit s u := by
    intro t remaining
    obtain ⟨u, kept, rfl⟩ := List.mem_map.mp remaining
    obtain ⟨present, different⟩ := List.mem_filter.mp kept
    exact ⟨u, present, by simpa using different, rfl⟩
  refine
    { content_eq := rfl
      slots_nodup := by simpa using tracks.slots_nodup
      clients_nodup := ?_
      file_eq := ?_
      has_slot := ?_
      start_eq := ?_
      end_eq := ?_
      complete_before := ?_ }
  · have unchanged :
        WriteSession.clientFd ∘ view.afterCommit s =
          WriteSession.clientFd := by
      funext t
      simp
    rw [List.map_map, unchanged]
    exact tracks.clients_nodup.sublist
      (List.filter_sublist.map WriteSession.clientFd)
  · intro t remaining
    obtain ⟨u, present, _, rfl⟩ := origin t remaining
    simpa using tracks.file_eq u present
  · intro t remaining
    obtain ⟨u, present, _, rfl⟩ := origin t remaining
    simpa using tracks.has_slot u present
  · intro t remaining
    obtain ⟨u, present, different, rfl⟩ := origin t remaining
    have placed := tracks.afterCommit_bounds member present different
    simpa using placed.1
  · intro t remaining
    obtain ⟨u, present, different, rfl⟩ := origin t remaining
    have placed := tracks.afterCommit_bounds member present different
    rw [← Slot.bodyOf_fill_other different s.sentenceWorking slots] at placed
    simpa using placed.2
  · intro t tRemaining u uRemaining before
    obtain ⟨t, tPresent, tDifferent, rfl⟩ := origin t tRemaining
    obtain ⟨u, uPresent, _, rfl⟩ := origin u uRemaining
    have earlier : Slot.Precedes t.clientFd u.clientFd slots := by
      simpa using before
    have complete := tracks.complete_before t tPresent u uPresent earlier
    rw [← Slot.bodyOf_fill_other tDifferent s.sentenceWorking slots]
      at complete
    simpa using complete

end Tracks

/-! ## Sessions opened on distinct sentences -/

/--
Every session has its own client and its own sentence of the present content,
and the range `ss_get_sentence_bounds` gave for it.
-/
structure OpenedOnSentences (view : FileView) : Prop where
  file_eq : ∀ s ∈ view.sessions, s.file = view.file
  clients_nodup : (view.sessions.map WriteSession.clientFd).Nodup
  indexes_nodup : (view.sessions.map WriteSession.sentenceIndex).Nodup
  bounds :
    ∀ s ∈ view.sessions,
      ssGetSentenceBounds view.content s.sentenceIndex =
        some (s.sentenceStart, s.sentenceEnd)

namespace FileView

/-- The sessions in the order of their sentences. -/
def inOrder (view : FileView) : List WriteSession :=
  view.sessions.mergeSort fun s t => s.sentenceIndex ≤ t.sentenceIndex

/-- The locked ranges with their clients, in textual order. -/
def lockedRanges (view : FileView) : List (Nat × Nat × Nat) :=
  view.inOrder.map fun s => (s.clientFd, s.sentenceStart, s.sentenceEnd)

/-- The slots of the locked sentences. -/
def slots (view : FileView) : SentenceSlots :=
  (Slot.carve 0 view.content view.lockedRanges).1

/-- What follows the last locked sentence. -/
def tail (view : FileView) : CString :=
  (Slot.carve 0 view.content view.lockedRanges).2

theorem mem_inOrder
    {view : FileView}
    {s : WriteSession} :
    s ∈ view.inOrder ↔ s ∈ view.sessions :=
  (List.mergeSort_perm _ _).mem_iff

theorem keys_slots (view : FileView) :
    Slot.keys view.slots = view.inOrder.map WriteSession.clientFd := by
  rw [slots, Slot.keys_carve, lockedRanges, List.map_map]
  rfl

end FileView

namespace OpenedOnSentences

variable {view : FileView}

theorem inOrder_pairwise
    (opened : OpenedOnSentences view) :
    view.inOrder.Pairwise fun s t => s.sentenceIndex < t.sentenceIndex := by
  have sorted :
      view.inOrder.Pairwise fun s t =>
        decide (s.sentenceIndex ≤ t.sentenceIndex) = true :=
    List.pairwise_mergeSort
      (fun a b c first second => by
        simp only [decide_eq_true_eq] at first second ⊢
        omega)
      (fun a b => by
        simp only [Bool.or_eq_true, decide_eq_true_eq]
        omega) _
  have distinct :
      (view.inOrder.map WriteSession.sentenceIndex).Nodup :=
    ((List.mergeSort_perm _ _).map _).nodup_iff.mpr opened.indexes_nodup
  have separate := List.pairwise_map.mp distinct
  refine (sorted.and separate).imp ?_
  rintro s t ⟨weak, different⟩
  have atMost : s.sentenceIndex ≤ t.sentenceIndex := by
    simpa using weak
  omega

/-- Sentences with a smaller index are complete and stand before. -/
theorem apart
    (opened : OpenedOnSentences view)
    {s t : WriteSession}
    (sMember : s ∈ view.sessions)
    (tMember : t ∈ view.sessions)
    (earlier : s.sentenceIndex < t.sentenceIndex) :
    s.sentenceEnd ≤ t.sentenceStart ∧
      sentenceCount (view.selected s) = 1 :=
  ssGetSentenceBounds_of_lt earlier (opened.bounds s sMember)
    (opened.bounds t tMember)

/-- Ranges with ascending indexes can be carved out of the content. -/
theorem ascending_of_pairwise
    (opened : OpenedOnSentences view)
    {ordered : List WriteSession}
    (members : ∀ s ∈ ordered, s ∈ view.sessions)
    (pairwise :
      ordered.Pairwise fun s t => s.sentenceIndex < t.sentenceIndex)
    {position : Nat}
    (inText : position ≤ view.content.length)
    (behind : ∀ s ∈ ordered, position ≤ s.sentenceStart) :
    Slot.Ascending position
      (ordered.map fun s => (s.clientFd, s.sentenceStart, s.sentenceEnd))
      view.content.length := by
  induction ordered generalizing position with
  | nil =>
      exact inText
  | cons s rest inductionHypothesis =>
      rw [List.pairwise_cons] at pairwise
      have sMember := members s (by simp)
      obtain ⟨ordered, bound⟩ :=
        ssGetSentenceBounds_le (opened.bounds s sMember)
      refine ⟨behind s (by simp), ordered, ?_⟩
      apply inductionHypothesis
        (fun t member => members t (by simp [member])) pairwise.2 bound
      intro t member
      exact (opened.apart sMember (members t (by simp [member]))
        (pairwise.1 t member)).1

theorem ascending
    (opened : OpenedOnSentences view) :
    Slot.Ascending 0 view.lockedRanges (0 + view.content.length) := by
  rw [Nat.zero_add]
  exact opened.ascending_of_pairwise
    (fun s member => FileView.mem_inOrder.mp member)
    opened.inOrder_pairwise (Nat.zero_le _) (fun s _ => Nat.zero_le _)

/-- The order of the slots is the order of the indexes. -/
theorem index_lt_of_precedes
    (opened : OpenedOnSentences view)
    {s t : WriteSession}
    (sMember : s ∈ view.sessions)
    (tMember : t ∈ view.sessions)
    (before : Slot.Precedes s.clientFd t.clientFd view.slots) :
    s.sentenceIndex < t.sentenceIndex := by
  rw [Slot.Precedes, FileView.keys_slots] at before
  obtain ⟨pair, ordered, clients⟩ := List.sublist_map_iff.mp before
  obtain ⟨u, rest, rfl⟩ : ∃ u rest, pair = u :: rest := by
    cases pair with
    | nil =>
        simp at clients
    | cons u rest =>
        exact ⟨u, rest, rfl⟩
  obtain ⟨v, rfl⟩ : ∃ v, rest = [v] := by
    cases rest with
    | nil =>
        simp at clients
    | cons v others =>
        cases others with
        | nil =>
            exact ⟨v, rfl⟩
        | cons w others =>
            simp at clients
  simp only [List.map_cons, List.map_nil, List.cons.injEq, and_true]
    at clients
  have uMember := FileView.mem_inOrder.mp (ordered.subset (by simp : u ∈ _))
  have vMember := FileView.mem_inOrder.mp (ordered.subset (by simp : v ∈ _))
  have uSame :=
    session_eq_of_clientFd opened.clients_nodup sMember uMember clients.1
  have vSame :=
    session_eq_of_clientFd opened.clients_nodup tMember vMember clients.2
  subst uSame
  subst vSame
  have pairwise := opened.inOrder_pairwise.sublist ordered
  simpa using pairwise

/-- Freshly opened sessions stand at the slots of their sentences. -/
theorem tracks
    (opened : OpenedOnSentences view) :
    Tracks view view.slots view.tail := by
  have ascending := opened.ascending
  have clients :
      (view.lockedRanges.map Prod.fst).Nodup := by
    have permuted :
        view.lockedRanges.map Prod.fst =
          view.inOrder.map WriteSession.clientFd := by
      rw [FileView.lockedRanges, List.map_map]
      rfl
    rw [permuted]
    exact ((List.mergeSort_perm _ _).map _).nodup_iff.mpr
      opened.clients_nodup
  have placed :
      ∀ s ∈ view.sessions,
        0 + Slot.offset s.clientFd view.slots = s.sentenceStart ∧
          (Slot.bodyOf s.clientFd view.slots).length =
            s.sentenceEnd - s.sentenceStart ∧
          s.sentenceStart ≤ s.sentenceEnd := by
    intro s member
    exact Slot.offset_carve ascending clients
      (List.mem_map.mpr ⟨s, FileView.mem_inOrder.mpr member, rfl⟩)
  have content : view.content = Slot.render view.slots view.tail :=
    (Slot.render_carve ascending).symm
  have present :
      ∀ s ∈ view.sessions, s.clientFd ∈ Slot.keys view.slots := by
    intro s member
    rw [FileView.keys_slots]
    exact List.mem_map_of_mem (FileView.mem_inOrder.mpr member)
  have start :
      ∀ s ∈ view.sessions,
        s.sentenceStart = Slot.offset s.clientFd view.slots := by
    intro s member
    have here := (placed s member).1
    omega
  have stop :
      ∀ s ∈ view.sessions,
        s.sentenceEnd =
          Slot.offset s.clientFd view.slots +
            (Slot.bodyOf s.clientFd view.slots).length := by
    intro s member
    have here := placed s member
    omega
  refine
    { content_eq := content
      slots_nodup := by rw [FileView.slots, Slot.keys_carve]; exact clients
      clients_nodup := opened.clients_nodup
      file_eq := opened.file_eq
      has_slot := present
      start_eq := start
      end_eq := stop
      complete_before := ?_ }
  intro s sMember t tMember before
  have earlier := opened.index_lt_of_precedes sMember tMember before
  have bodySelected :
      view.selected s = Slot.bodyOf s.clientFd view.slots := by
    rw [FileView.selected, content, start s sMember, stop s sMember]
    exact Slot.slice_render (present s sMember) view.tail
  rw [← bodySelected]
  exact (opened.apart sMember tMember earlier).2

end OpenedOnSentences

/-- A session as `REQ_WRITE_LOCK` opens it, with some edits made since. -/
def openedSession
    (clientFd : Nat)
    (sentenceIndex : Int)
    (sentenceStart sentenceEnd : Nat)
    (sentenceWorking : CString) : WriteSession where
  clientFd := clientFd
  file := 0
  username := str "writer"
  sentenceIndex := sentenceIndex
  sentenceStart := sentenceStart
  sentenceEnd := sentenceEnd
  fileSnapshot := str "A. B. "
  sentenceWorking := sentenceWorking

/-- Three writers on `A. B. `, the last on the empty trailing sentence. -/
def threeWriters : FileView where
  file := 0
  content := str "A. B. "
  sessions :=
    [ openedSession 4 0 0 2 (str "Hello! A."),
      openedSession 5 1 3 5 (str "B again."),
      openedSession 6 2 6 6 (str "C") ]

theorem threeWriters_opened : OpenedOnSentences threeWriters where
  file_eq := by decide
  clients_nodup := by decide
  indexes_nodup := by decide
  bounds := by decide +kernel

end DistributedDocs
