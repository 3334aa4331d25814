import DistributedDocs.TextTransfer
import DistributedDocs.WordEdits

namespace DistributedDocs

/-!
# Streamed words

`handle_client_stream` scans a content for its words as `split_words` does, and
sends each as soon as it has found it.  `count_words` and `count_chars` scan the
same content with a flag, and one character at a time.
-/

/-- Nothing is left of a word that has been scanned. -/
theorem length_behindWord_lt
    {text rest : CString}
    {c : CChar}
    (unspaced : text.dropWhile isspace = c :: rest) :
    ((c :: rest).dropWhile fun d => !isspace d).length < text.length := by
  have solid := isspace_of_unspaced unspaced
  have shorter :=
    (List.dropWhile_suffix (l := rest) fun d => !isspace d).length_le
  have suffix := (List.dropWhile_suffix (l := text) isspace).length_le
  rw [unspaced, List.length_cons] at suffix
  rw [List.dropWhile_cons_of_pos (by simp [solid])]
  omega

/-- The loop of `handle_client_stream`; what it has behind the cursor. -/
def sendWords (fd : Nat) (cursor : CString) : Handler Unit :=
  match _unspaced : cursor.dropWhile isspace with
  | [] =>
      pure ()
  | c :: rest => do
      send (.client fd)
        [str "OK_CONTENT", (c :: rest).takeWhile fun d => !isspace d]
      sendWords fd ((c :: rest).dropWhile fun d => !isspace d)
termination_by cursor.length
decreasing_by
  exact length_behindWord_lt _unspaced

/-- `handle_client_stream`, from the record on. -/
def streamRecord
    (now : Int)
    (fd : Nat)
    (username : CString)
    (rec : FileRecord) : Handler Unit := do
  ensure (ssCheckReadAccess rec username)
    (refuse errPermissionDenied "No read access")
  let some content ← ssReadFileContent rec.filepath
    | refuse errInternalError "Failed to read file"
  send (.client fd) [str "OK_STREAM", rec.filename]
  sendWords fd content
  send (.client fd) [str "OK_STREAM_END"]
  ssTouchFileMetadata now rec (some username) false

/-- `handle_client_stream` -/
def handleClientStream
    (now : Int)
    (fd : Nat)
    (msg : List CString) : Handler Unit := do
  match msg with
  | _ :: username :: filename :: _ =>
      let some rec := ssFindFile (← get).files filename
        | refuse errFileNotFound "File not found"
      streamRecord now fd username rec
  | _ =>
      refuse errInvalidRequest "Missing fields in REQ_STREAM"

/-! ## One sequence of words -/

/-- The messages of a stream of words. -/
def streamMessages
    (filename : CString)
    (words : List CString) : List (List CString) :=
  [str "OK_STREAM", filename] ::
    words.map (fun word => [str "OK_CONTENT", word]) ++
      [[str "OK_STREAM_END"]]

theorem sendWords_apply
    (fd : Nat)
    (cursor : CString)
    (ss : StorageServer) :
    sendWords fd cursor ss =
      .ok ()
        { ss with
          sent :=
            ss.sent ++
              (splitWords cursor).map fun word =>
                ⟨.client fd, [str "OK_CONTENT", word]⟩ } := by
  fun_induction sendWords fd cursor generalizing ss with
  | case1 cursor blank =>
      have noWords : splitWords cursor = [] := by
        rw [splitWords_eq, ← spacedWords_dropWhile, blank, spacedWords_nil]
      simp [noWords]
  | case2 cursor c rest unspaced inductionHypothesis =>
      have firstWord :
          splitWords cursor =
            (c :: rest).takeWhile (fun d => !isspace d) ::
              splitWords ((c :: rest).dropWhile fun d => !isspace d) := by
        rw [splitWords_eq, ← spacedWords_dropWhile, unspaced,
          spacedWords_cons_solid (isspace_of_unspaced unspaced),
          splitWords_eq]
      rw [bind_apply, send, modify_apply]
      simp only [inductionHypothesis, firstWord, List.map_cons,
        List.append_assoc, List.singleton_append]

/-- Inside a word, only what is behind the word counts. -/
theorem countWordsFrom_eq (inWord : Bool) (text : CString) :
    countWordsFrom inWord text =
      (spacedWords isspace
        (if inWord then text.dropWhile fun c => !isspace c
          else text)).length := by
  induction text generalizing inWord with
  | nil =>
      cases inWord <;> simp [countWordsFrom]
  | cons c rest inductionHypothesis =>
      rw [countWordsFrom]
      cases spaced : isspace c with
      | true =>
          cases inWord <;>
            simp [inductionHypothesis, spaced, spacedWords_cons_space]
      | false =>
          cases inWord <;>
            simp [inductionHypothesis, spaced, spacedWords_cons_solid]

theorem length_splitWords (text : CString) :
    (splitWords text).length = countWords text := by
  rw [countWords, countWordsFrom_eq, splitWords_eq]
  rfl

theorem sum_length_splitWords (text : CString) :
    ((splitWords text).map List.length).sum = countChars text := by
  rw [← List.length_flatten, flatten_splitWords, nonSpace,
    ← List.countP_eq_length_filter]
  rfl

theorem isWord_of_mem_splitWords
    {text word : CString}
    (listed : word ∈ splitWords text) :
    IsWord isspace word := by
  rw [splitWords_eq] at listed
  exact isWord_of_mem listed

/-- Words that are joined by single spaces are found again. -/
theorem splitWords_joinWords (text : CString) :
    splitWords (joinWords (splitWords text) none) = splitWords text := by
  rw [splitWords_eq]
  exact spacedWords_intercalate isspace_space fun word listed =>
    isWord_of_mem_splitWords listed

section Streams

variable
  {ss : StorageServer}
  {rec : FileRecord}
  {bytes : RawBytes}
  {username filename : CString}
  (found : ssFindFile ss.files filename = some rec)
  (allowed : ssCheckReadAccess rec username = true)
  (readable : (ss.disk.read rec.filepath).1 = some bytes)

include found allowed readable

/-- A stream that is granted sends the words `split_words` finds. -/
theorem sent_handleClientStream
    (now : Int)
    (fd : Nat)
    (type : CString)
    (more : List CString) :
    ∃ after,
      handleClientStream now fd (type :: username :: filename :: more) ss =
          .ok () after ∧
        after.sent =
          ss.sent ++
            (streamMessages rec.filename (splitWords (cString bytes))).map
              (Message.mk (.client fd)) := by
  simp [handleClientStream, streamRecord, found, allowed, ssReadFileContent,
    readable, sendWords_apply, send, ssTouchFileMetadata, ssWriteMetadata,
    streamMessages]

/--
The words of a stream are those `split_words` finds, and their number and sizes
are what `count_words` and `count_chars` say.
-/
theorem streamedWords_eq_splitWords
    (now : Int)
    (fd : Nat)
    (type : CString)
    (more : List CString) :
    ∃ after words,
      handleClientStream now fd (type :: username :: filename :: more) ss =
          .ok () after ∧
        after.sent =
          ss.sent ++
            (streamMessages rec.filename words).map
              (Message.mk (.client fd)) ∧
        words = splitWords (cString bytes) ∧
        words.length = countWords (cString bytes) ∧
        (words.map List.length).sum = countChars (cString bytes) ∧
        (∀ word ∈ words, IsWord isspace word) ∧
        splitWords (joinWords words none) = words := by
  obtain ⟨after, granted, sent⟩ :=
    sent_handleClientStream found allowed readable now fd type more
  exact ⟨after, splitWords (cString bytes), granted, sent, rfl,
    length_splitWords _, sum_length_splitWords _,
    fun word listed => isWord_of_mem_splitWords listed,
    splitWords_joinWords _⟩

end Streams

/-- A file of two words. -/
def twoWordFile : FileRecord where
  address := 0
  filename := str "f"
  filename_short := by decide
  physicalName := str "f"
  filepath := str "s/f"
  metapath := str "s/f.meta"
  undopath := str "s/f.undo"
  owner := str "u"
  readUsers := []
  writeUsers := []
  created := 0
  modified := 0
  lastAccess := 0
  lastAccessUser := []
  undoAvailable := 0
  checkpoints := []

/-- The server that has it. -/
def twoWordServer : StorageServer :=
  { newServer ⟨str "s", length_shortPath⟩ with
    files := [twoWordFile]
    disk := ⟨fun _ => some (rawBytes (str "two\n words ")), []⟩ }

theorem streamedWords_twoWordServer :
    ∃ after words,
      handleClientStream 1 3 [str "REQ_STREAM", str "u", str "f"]
          twoWordServer =
          .ok () after ∧
        after.sent =
          [] ++ (streamMessages (str "f") words).map (Message.mk (.client 3)) ∧
        words = splitWords (cString (rawBytes (str "two\n words "))) ∧
        words.length = countWords (cString (rawBytes (str "two\n words "))) ∧
        (words.map List.length).sum =
          countChars (cString (rawBytes (str "two\n words "))) ∧
        (∀ word ∈ words, IsWord isspace word) ∧
        splitWords (joinWords words none) = words :=
  @streamedWords_eq_splitWords twoWordServer twoWordFile _ _ _ (by decide)
    (by decide) rfl 1 3 (str "REQ_STREAM") []

end DistributedDocs
