import DistributedDocs.SessionSlots

namespace DistributedDocs

/-!
# Sessions stay on their sentences

The range and the index of a session are repaired from a character delta and a
delimiter count.  They stay what the scanner would find on the new text,
because a complete sentence keeps its delimiter through all edits of words.
-/

/--
Sessions on the sentences they locked; the working text of a complete sentence
still ends one.
-/
structure SessionsInPlace (view : FileView) : Prop extends
    OpenedOnSentences view where
  delimiter_kept :
    ∀ s ∈ view.sessions,
      endsWithDelimiter (view.selected s) = true →
        endsWithDelimiter s.sentenceWorking = true

namespace OpenedOnSentences

variable {view : FileView}

/-- Different sessions have different sentences. -/
theorem index_ne
    (opened : OpenedOnSentences view)
    {s t : WriteSession}
    (sMember : s ∈ view.sessions)
    (tMember : t ∈ view.sessions)
    (different : t.clientFd ≠ s.clientFd) :
    t.sentenceIndex ≠ s.sentenceIndex := by
  intro same
  have sameSession : t = s :=
    List.inj_on_of_nodup_map opened.indexes_nodup tMember sMember same
  exact different (by rw [sameSession])

/-- The order of the indexes is the order of the slots. -/
theorem precedes_of_index_lt
    (opened : OpenedOnSentences view)
    {s t : WriteSession}
    (sMember : s ∈ view.sessions)
    (tMember : t ∈ view.sessions)
    (earlier : s.sentenceIndex < t.sentenceIndex) :
    Slot.Precedes s.clientFd t.clientFd view.slots := by
  have tracks := opened.tracks
  have different : s.clientFd ≠ t.clientFd := by
    intro same
    rw [session_eq_of_clientFd opened.clients_nodup sMember tMember same]
      at earlier
    omega
  rcases Slot.precedes_total (tracks.has_slot s sMember)
      (tracks.has_slot t tMember) different with before | after
  · exact before
  · have reversed := opened.index_lt_of_precedes tMember sMember after
    omega

end OpenedOnSentences

namespace SessionsInPlace

variable {view : FileView}

/-- A session with a later one behind it has a text that ends a sentence. -/
theorem working_ends_of_lt
    (inPlace : SessionsInPlace view)
    {s t : WriteSession}
    (sMember : s ∈ view.sessions)
    (tMember : t ∈ view.sessions)
    (earlier : s.sentenceIndex < t.sentenceIndex) :
    endsWithDelimiter s.sentenceWorking = true :=
  inPlace.delimiter_kept s sMember
    (endsWithDelimiter_of_lt (inPlace.bounds s sMember)
      (inPlace.bounds t tMember) earlier)

/-- A commit shifts the index of a later sentence by the sentences it adds. -/
theorem sentenceIndex_afterCommit
    (inPlace : SessionsInPlace view)
    {s t : WriteSession}
    (sMember : s ∈ view.sessions)
    (tMember : t ∈ view.sessions)
    (different : t.clientFd ≠ s.clientFd) :
    (view.afterCommit s t).sentenceIndex =
      if t.sentenceIndex < s.sentenceIndex then
        t.sentenceIndex
      else
        t.sentenceIndex + (sentenceCount s.sentenceWorking - 1) := by
  have tracks := inPlace.toOpenedOnSentences.tracks
  have notSame := inPlace.index_ne sMember tMember different
  by_cases earlier : t.sentenceIndex < s.sentenceIndex
  · rw [if_pos earlier,
      tracks.afterCommit_of_preceded sMember tMember
        (inPlace.precedes_of_index_lt tMember sMember earlier)]
  · have later : s.sentenceIndex < t.sentenceIndex := by omega
    have ends := inPlace.working_ends_of_lt sMember tMember later
    obtain ⟨counted, positive⟩ := sentenceCount_of_endsWithDelimiter ends
    have nonneg :=
      ssGetSentenceBounds_nonneg (inPlace.bounds t tMember)
    rw [if_neg earlier,
      tracks.afterCommit_of_precedes sMember tMember different
        (inPlace.precedes_of_index_lt sMember tMember later)]
    simp only [WriteSession.shifted, shiftedIndex]
    split_ifs <;> omega

/-- After a commit, the scanner finds every other session at its range. -/
theorem bounds_afterCommit
    (inPlace : SessionsInPlace view)
    {s t : WriteSession}
    (sMember : s ∈ view.sessions)
    (tMember : t ∈ view.sessions)
    (different : t.clientFd ≠ s.clientFd) :
    ssGetSentenceBounds
        (splice view.content s.sentenceStart s.sentenceEnd
          s.sentenceWorking)
        (view.afterCommit s t).sentenceIndex =
      some ((view.afterCommit s t).sentenceStart,
        (view.afterCommit s t).sentenceEnd) := by
  have tracks := inPlace.toOpenedOnSentences.tracks
  have sFound := inPlace.bounds s sMember
  have tFound := inPlace.bounds t tMember
  have notSame := inPlace.index_ne sMember tMember different
  rw [inPlace.sentenceIndex_afterCommit sMember tMember different]
  by_cases earlier : t.sentenceIndex < s.sentenceIndex
  · rw [if_pos earlier,
      tracks.afterCommit_of_preceded sMember tMember
        (inPlace.precedes_of_index_lt tMember sMember earlier)]
    exact ssGetSentenceBounds_splice_of_lt sFound tFound earlier _
  · have later : s.sentenceIndex < t.sentenceIndex := by omega
    have before := inPlace.precedes_of_index_lt sMember tMember later
    have ends := inPlace.working_ends_of_lt sMember tMember later
    obtain ⟨apart, _⟩ := inPlace.apart sMember tMember later
    obtain ⟨ordered, _⟩ := ssGetSentenceBounds_le tFound
    have size := tracks.editEnd_eq sMember
    have start := tracks.start_eq s sMember
    have sOrdered := (ssGetSentenceBounds_le sFound).1
    rw [if_neg earlier,
      ssGetSentenceBounds_splice_of_gt sFound tFound later ends,
      tracks.afterCommit_of_precedes sMember tMember different before]
    simp only [WriteSession.shifted, Option.some.injEq, Prod.mk.injEq]
    simp only at apart ordered sOrdered
    omega

/-- A commit keeps every other session on its sentence. -/
theorem commit
    (inPlace : SessionsInPlace view)
    {s : WriteSession}
    (member : s ∈ view.sessions) :
    SessionsInPlace (view.commit s.clientFd) := by
  have tracks := inPlace.toOpenedOnSentences.tracks
  have after := tracks.commit member
  have committed := tracks.commit_eq member
  rw [← tracks.splice_eq member] at committed
  have origin :
      ∀ t ∈ (view.commit s.clientFd).sessions,
        ∃ u ∈ view.sessions,
          u.clientFd ≠ s.clientFd ∧ t = view.afterCommit s u := by
    intro t remaining
    rw [committed] at remaining
    obtain ⟨u, kept, rfl⟩ := List.mem_map.mp remaining
    obtain ⟨present, different⟩ := List.mem_filter.mp kept
    exact ⟨u, present, by simpa using different, rfl⟩
  refine
    { file_eq := after.file_eq
      clients_nodup := after.clients_nodup
      indexes_nodup := ?_
      bounds := ?_
      delimiter_kept := ?_ }
  · have distinct :
        (view.sessions.filter fun t => t.clientFd ≠ s.clientFd).Pairwise
          fun t u => t.sentenceIndex ≠ u.sentenceIndex :=
      (List.pairwise_map.mp inPlace.indexes_nodup).filter _
    rw [committed]
    refine List.pairwise_map.mpr (List.pairwise_map.mpr ?_)
    refine distinct.imp_of_mem ?_
    intro t u tKept uKept notSame
    obtain ⟨tPresent, tDifferent⟩ := List.mem_filter.mp tKept
    obtain ⟨uPresent, uDifferent⟩ := List.mem_filter.mp uKept
    have tOther : t.clientFd ≠ s.clientFd := by simpa using tDifferent
    have uOther : u.clientFd ≠ s.clientFd := by simpa using uDifferent
    have tApart := inPlace.index_ne member tPresent tOther
    have uApart := inPlace.index_ne member uPresent uOther
    rw [inPlace.sentenceIndex_afterCommit member tPresent tOther,
      inPlace.sentenceIndex_afterCommit member uPresent uOther]
    -- a later session exists in the mixed cases, so the count is positive
    by_cases tEarlier : t.sentenceIndex < s.sentenceIndex <;>
      by_cases uEarlier : u.sentenceIndex < s.sentenceIndex <;>
      simp only [tEarlier, uEarlier, ↓reduceIte]
    · exact notSame
    · have ends :=
        inPlace.working_ends_of_lt member uPresent (by omega)
      obtain ⟨counted, positive⟩ :=
        sentenceCount_of_endsWithDelimiter ends
      omega
    · have ends :=
        inPlace.working_ends_of_lt member tPresent (by omega)
      obtain ⟨counted, positive⟩ :=
        sentenceCount_of_endsWithDelimiter ends
      omega
    · omega
  · intro t remaining
    obtain ⟨u, present, different, rfl⟩ := origin t remaining
    rw [committed]
    exact inPlace.bounds_afterCommit member present different
  · intro t remaining ends
    have selected := after.selected_eq remaining
    obtain ⟨u, present, different, rfl⟩ := origin t remaining
    rw [selected, FileView.clientFd_afterCommit,
      Slot.bodyOf_fill_other different, ← tracks.selected_eq present]
      at ends
    rw [FileView.sentenceWorking_afterCommit]
    exact inPlace.delimiter_kept u present ends

/-- A session the table does not have yet may lock a free sentence. -/
theorem lock
    (inPlace : SessionsInPlace view)
    {s : WriteSession}
    (sameFile : s.file = view.file)
    (newClient : ∀ t ∈ view.sessions, t.clientFd ≠ s.clientFd)
    (freeSentence : ∀ t ∈ view.sessions, t.sentenceIndex ≠ s.sentenceIndex)
    (found :
      ssGetSentenceBounds view.content s.sentenceIndex =
        some (s.sentenceStart, s.sentenceEnd))
    (unedited : s.sentenceWorking = view.selected s) :
    SessionsInPlace { view with sessions := s :: view.sessions } where
  file_eq := by
    simpa [sameFile] using inPlace.file_eq
  clients_nodup := by
    rw [List.map_cons, List.nodup_cons]
    refine ⟨?_, inPlace.clients_nodup⟩
    intro listed
    obtain ⟨t, present, same⟩ := List.mem_map.mp listed
    exact newClient t present same
  indexes_nodup := by
    rw [List.map_cons, List.nodup_cons]
    refine ⟨?_, inPlace.indexes_nodup⟩
    intro listed
    obtain ⟨t, present, same⟩ := List.mem_map.mp listed
    exact freeSentence t present same
  bounds t member := by
    rcases List.mem_cons.mp member with rfl | present
    · exact found
    · exact inPlace.bounds t present
  delimiter_kept t member ends := by
    rcases List.mem_cons.mp member with rfl | present
    · rw [unedited]
      exact ends
    · exact inPlace.delimiter_kept t present ends

/-- Sessions may end. -/
theorem of_sublist
    (inPlace : SessionsInPlace view)
    {sessions : List WriteSession}
    (fewer : sessions.Sublist view.sessions) :
    SessionsInPlace { view with sessions := sessions } where
  file_eq t member := inPlace.file_eq t (fewer.subset member)
  clients_nodup := (fewer.map _).nodup inPlace.clients_nodup
  indexes_nodup := (fewer.map _).nodup inPlace.indexes_nodup
  bounds t member := inPlace.bounds t (fewer.subset member)
  delimiter_kept t member := inPlace.delimiter_kept t (fewer.subset member)

/-- An edit of words changes working texts only. -/
theorem edit
    (inPlace : SessionsInPlace view)
    (change : WriteSession → WriteSession)
    (keeps :
      ∀ t ∈ view.sessions,
        ∃ joined,
          change t = { t with sentenceWorking := joined } ∧
            (endsWithDelimiter t.sentenceWorking = true →
              endsWithDelimiter joined = true)) :
    SessionsInPlace
      { view with sessions := view.sessions.map change } := by
  have kept :
      ∀ {α : Type} (field : WriteSession → α),
        (∀ (t : WriteSession) joined,
            field { t with sentenceWorking := joined } = field t) →
          (view.sessions.map change).map field = view.sessions.map field := by
    intro α field unaffected
    rw [List.map_map]
    apply List.map_congr_left
    intro t member
    obtain ⟨joined, changed, _⟩ := keeps t member
    rw [Function.comp_apply, changed]
    exact unaffected t joined
  refine
    { file_eq := ?_
      clients_nodup := by
        rw [kept WriteSession.clientFd fun _ _ => rfl]
        exact inPlace.clients_nodup
      indexes_nodup := by
        rw [kept WriteSession.sentenceIndex fun _ _ => rfl]
        exact inPlace.indexes_nodup
      bounds := ?_
      delimiter_kept := ?_ }
  · intro t member
    obtain ⟨u, present, rfl⟩ := List.mem_map.mp member
    obtain ⟨joined, changed, _⟩ := keeps u present
    rw [changed]
    exact inPlace.file_eq u present
  · intro t member
    obtain ⟨u, present, rfl⟩ := List.mem_map.mp member
    obtain ⟨joined, changed, _⟩ := keeps u present
    rw [changed]
    exact inPlace.bounds u present
  · intro t member ends
    obtain ⟨u, present, rfl⟩ := List.mem_map.mp member
    obtain ⟨joined, changed, stillEnds⟩ := keeps u present
    rw [changed] at ends ⊢
    exact stillEnds (inPlace.delimiter_kept u present ends)

end SessionsInPlace

end DistributedDocs
