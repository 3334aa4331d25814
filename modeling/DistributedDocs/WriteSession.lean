import DistributedDocs.SentenceText

namespace DistributedDocs

/-!
# Write sessions and the commit of one sentence

A write session locks one sentence of one file for one client.  `ETIRW`
splices the session's working text over the locked range and repairs the
ranges and the indexes of the file's other sessions from two numbers only: how
many characters and how many sentences the text has grown by.
-/

/--
`WriteSession`, less the link of its list.  `file` is the address of the
`FileRecord` being edited.
-/
structure WriteSession where
  clientFd : Nat
  file : Nat
  username : CString
  sentenceIndex : Int
  sentenceStart : Nat
  sentenceEnd : Nat
  fileSnapshot : CString
  sentenceWorking : CString
  deriving DecidableEq

attribute [ext] WriteSession

/-- `ss_find_session` -/
def ssFindSession
    (sessions : List WriteSession)
    (clientFd : Nat) : Option WriteSession :=
  sessions.find? fun node => node.clientFd = clientFd

/-- `ss_find_session_by_sentence` -/
def ssFindSessionBySentence
    (sessions : List WriteSession)
    (rec : Nat)
    (sentenceIndex : Int) : Option WriteSession :=
  sessions.find? fun node =>
    node.file = rec ∧ node.sentenceIndex = sentenceIndex

/-- `ss_file_has_active_writers` -/
def ssFileHasActiveWriters
    (sessions : List WriteSession)
    (rec : Nat) : Bool :=
  sessions.any fun node => node.file = rec

/-- `ss_detach_session`, also the effect of `ss_abort_session` on the list. -/
def ssDetachSession
    (sessions : List WriteSession)
    (clientFd : Nat) : List WriteSession :=
  sessions.eraseP fun node => node.clientFd = clientFd

/-- `ss_create_session`; the new session becomes the head of the list. -/
def ssCreateSession
    (sessions : List WriteSession)
    (clientFd rec : Nat)
    (username : CString)
    (sentenceIndex : Int)
    (startOffset endOffset : Nat)
    (fileSnapshot sentenceText : CString) : List WriteSession :=
  { clientFd := clientFd
    file := rec
    username := safeStrcpy username maxUsernameLength
    sentenceIndex := sentenceIndex
    sentenceStart := startOffset
    sentenceEnd := endOffset
    fileSnapshot := fileSnapshot
    sentenceWorking := sentenceText } :: sessions

/-- The index after the commit of an earlier sentence. -/
def shiftedIndex (sentenceDelta index : Int) : Int :=
  if sentenceDelta ≠ 0 then
    if index + sentenceDelta < 0 then 0 else index + sentenceDelta
  else
    index

/-- What `ss_update_active_sessions` does to a session behind the edit. -/
def WriteSession.shifted
    (charDelta sentenceDelta : Int)
    (s : WriteSession) : WriteSession :=
  { s with
    sentenceStart := (s.sentenceStart + charDelta).toNat
    sentenceEnd := (s.sentenceEnd + charDelta).toNat
    sentenceIndex := shiftedIndex sentenceDelta s.sentenceIndex }

/--
The body of the loop of `ss_update_active_sessions`.  The session to leave out
is given by its client: the table never holds two sessions of one client.
-/
def WriteSession.afterEdit
    (rec editStart oldLen newLen : Nat)
    (sentenceDelta : Int)
    (excludeClient : Nat)
    (s : WriteSession) : WriteSession :=
  if s.clientFd = excludeClient ∨ s.file ≠ rec then
    s
  else if s.sentenceStart ≥ editStart + oldLen then
    s.shifted (newLen - oldLen) sentenceDelta
  else
    s

/-- `ss_update_active_sessions` -/
def ssUpdateActiveSessions
    (sessions : List WriteSession)
    (rec editStart oldLen newLen : Nat)
    (sentenceDelta : Int)
    (excludeClient : Nat) : List WriteSession :=
  sessions.map
    (WriteSession.afterEdit rec editStart oldLen newLen sentenceDelta
      excludeClient)

namespace WriteSession

section AfterEdit

variable
  (rec editStart oldLen newLen : Nat)
  (sentenceDelta : Int)
  (excludeClient : Nat)
  (s : WriteSession)

@[simp] theorem clientFd_afterEdit :
    (s.afterEdit rec editStart oldLen newLen sentenceDelta
      excludeClient).clientFd = s.clientFd := by
  unfold afterEdit
  split
  · rfl
  · split <;> rfl

@[simp] theorem file_afterEdit :
    (s.afterEdit rec editStart oldLen newLen sentenceDelta
      excludeClient).file = s.file := by
  unfold afterEdit
  split
  · rfl
  · split <;> rfl

@[simp] theorem username_afterEdit :
    (s.afterEdit rec editStart oldLen newLen sentenceDelta
      excludeClient).username = s.username := by
  unfold afterEdit
  split
  · rfl
  · split <;> rfl

@[simp] theorem fileSnapshot_afterEdit :
    (s.afterEdit rec editStart oldLen newLen sentenceDelta
      excludeClient).fileSnapshot = s.fileSnapshot := by
  unfold afterEdit
  split
  · rfl
  · split <;> rfl

@[simp] theorem sentenceWorking_afterEdit :
    (s.afterEdit rec editStart oldLen newLen sentenceDelta
      excludeClient).sentenceWorking = s.sentenceWorking := by
  unfold afterEdit
  split
  · rfl
  · split <;> rfl

end AfterEdit

end WriteSession

/-! ## One commit -/

/-- The test before the reply "Invalid sentence bounds". -/
def invalidSentenceBounds
    (base : CString)
    (lockedStart lockedEnd : Nat) : Bool :=
  lockedStart > base.length || lockedEnd > base.length ||
    lockedStart > lockedEnd

/-- `sentence_delta` of `handle_client_etirw`. -/
def etirwSentenceDelta
    (base : CString)
    (lockedStart lockedEnd : Nat)
    (replacement : CString) : Int :=
  countSentencesInSpan replacement 0 replacement.length -
    countSentencesInSpan base lockedStart lockedEnd

/-- The content of one file together with the sessions open on it. -/
structure FileView where
  file : Nat
  content : CString
  sessions : List WriteSession
  deriving DecidableEq

namespace FileView

/--
The second locked section of `handle_client_etirw` for bounds read earlier: the
splice, the shift of the other sessions and the end of the committing one.
-/
def commitSection
    (clientFd lockedStart lockedEnd : Nat)
    (view : FileView) : FileView :=
  match ssFindSession view.sessions clientFd with
  | none =>
      view
  | some session =>
      if invalidSentenceBounds view.content lockedStart lockedEnd then
        view
      else
        let replacement := session.sentenceWorking
        let updated :=
          ssUpdateActiveSessions view.sessions view.file lockedStart
            (lockedEnd - lockedStart) replacement.length
            (etirwSentenceDelta view.content lockedStart lockedEnd
              replacement)
            clientFd
        { view with
          content := splice view.content lockedStart lockedEnd replacement
          sessions := ssDetachSession updated clientFd }

/-- `ETIRW` without interference: the bounds are those of the session. -/
def commit (clientFd : Nat) (view : FileView) : FileView :=
  match ssFindSession view.sessions clientFd with
  | none =>
      view
  | some session =>
      view.commitSection clientFd session.sentenceStart
        session.sentenceEnd

end FileView

end DistributedDocs
