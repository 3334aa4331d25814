import Mathlib.Data.UInt
import Mathlib.Data.List.Basic

namespace DistributedDocs

/-!
# C strings

A C string is a list of nonzero bytes; the terminating NUL is the end of the
list, so every list of `CChar` is one.  File contents are raw bytes and may
contain NUL; reading one as a string stops at the first NUL.
-/

/-- A byte that can stand inside a C string. -/
abbrev CChar := {byte : UInt8 // byte ≠ 0}

/-- A NUL-terminated string without its terminator. -/
abbrev CString := List CChar

instance : LawfulBEq CString :=
  inferInstance

/-- The bytes of a file. -/
abbrev RawBytes := List UInt8

/-- The character constants of the source. -/
def CChar.ofChar (c : Char) : CChar :=
  if nonzero : UInt8.ofNat c.toNat ≠ 0 then
    ⟨UInt8.ofNat c.toNat, nonzero⟩
  else
    ⟨1, by decide⟩

/-- The string literals of the source. -/
def str (text : String) : CString :=
  text.toList.map CChar.ofChar

/-- The character `\n`. -/
def newline : CChar :=
  CChar.ofChar '\n'

/-- `isspace` in the C locale. -/
def isspace (c : CChar) : Bool :=
  c.val == 32 || (9 ≤ c.val && c.val ≤ 13)

/-- `is_sentence_delimiter` -/
def isSentenceDelimiter (c : CChar) : Bool :=
  c == CChar.ofChar '.' || c == CChar.ofChar '!' ||
    c == CChar.ofChar '?'

/-- `isalnum` in the C locale. -/
def isalnum (c : CChar) : Bool :=
  (48 ≤ c.val && c.val ≤ 57) || (65 ≤ c.val && c.val ≤ 90) ||
    (97 ≤ c.val && c.val ≤ 122)

/-- No delimiter is white space. -/
theorem isspace_of_isSentenceDelimiter
    (c : CChar)
    (delim : isSentenceDelimiter c = true) :
    isspace c = false := by
  simp only [isSentenceDelimiter, Bool.or_eq_true, beq_iff_eq] at delim
  rcases delim with (rfl | rfl) | rfl <;> decide

/-- A file's bytes as a string: everything before the first NUL. -/
def cString : RawBytes → CString
  | [] =>
      []
  | byte :: rest =>
      if nonzero : byte ≠ 0 then ⟨byte, nonzero⟩ :: cString rest else []

/-- The bytes `fwrite` stores for a string. -/
def rawBytes (text : CString) : RawBytes :=
  text.map Subtype.val

@[simp] theorem rawBytes_nil : rawBytes [] = [] :=
  rfl

/-- Writing a string and reading it back gives the string. -/
@[simp] theorem cString_rawBytes (text : CString) :
    cString (rawBytes text) = text := by
  induction text with
  | nil =>
      rfl
  | cons c rest inductionHypothesis =>
      have recursive : cString (rest.map Subtype.val) = rest :=
        inductionHypothesis
      simp only [rawBytes, List.map_cons, cString, c.property, ne_eq,
        not_false_eq_true, ↓reduceDIte, recursive]

/-- A file without NUL bytes is the file its string would be written to. -/
theorem rawBytes_cString
    {bytes : RawBytes}
    (nulFree : (0 : UInt8) ∉ bytes) :
    rawBytes (cString bytes) = bytes := by
  induction bytes with
  | nil =>
      rfl
  | cons byte rest inductionHypothesis =>
      simp only [List.mem_cons, not_or] at nulFree
      have recursive : (cString rest).map Subtype.val = rest :=
        inductionHypothesis nulFree.2
      simp only [rawBytes, cString, ne_eq, Ne.symm nulFree.1,
        not_false_eq_true, ↓reduceDIte, List.map_cons, recursive]

theorem nul_not_mem_rawBytes (text : CString) :
    (0 : UInt8) ∉ rawBytes text := by
  intro member
  obtain ⟨c, _, isNul⟩ := List.mem_map.mp member
  exact c.property isNul

theorem rawBytes_injective {first second : CString}
    (same : rawBytes first = rawBytes second) :
    first = second := by
  rw [← cString_rawBytes first, same, cString_rawBytes]

@[simp] theorem length_rawBytes (text : CString) :
    (rawBytes text).length = text.length := by
  simp [rawBytes]

/-- `MAX_USERNAME_LENGTH` -/
def maxUsernameLength : Nat :=
  256

/-- `MAX_FILENAME_LENGTH` -/
def maxFilenameLength : Nat :=
  512

/-- `MAX_PATH_LENGTH` -/
def maxPathLength : Nat :=
  4096

/-- `MAX_TAG_LENGTH` -/
def maxTagLength : Nat :=
  128

/-- `safe_strcpy` into a buffer of `size` bytes: the copy is cut, never refused. -/
def safeStrcpy (source : CString) (size : Nat) : CString :=
  source.take (size - 1)

/-- What `snprintf` leaves in a buffer of `size` bytes. -/
def snprintf (size : Nat) (text : CString) : CString :=
  text.take (size - 1)

theorem length_safeStrcpy_lt
    (source : CString)
    {size : Nat}
    (positive : 0 < size) :
    (safeStrcpy source size).length < size := by
  rw [safeStrcpy, List.length_take]
  omega

theorem length_safeStrcpy_filename (source : CString) :
    (safeStrcpy source maxFilenameLength).length < maxFilenameLength :=
  length_safeStrcpy_lt source (by decide)

theorem safeStrcpy_of_short
    {source : CString}
    {size : Nat}
    (short : source.length < size) :
    safeStrcpy source size = source :=
  List.take_of_length_le (by omega)

theorem snprintf_of_short
    {text : CString}
    {size : Nat}
    (short : text.length < size) :
    snprintf size text = text :=
  List.take_of_length_le (by omega)

/-- `strncmp(first, second, size) == 0` -/
def strncmpEq (first second : CString) (size : Nat) : Bool :=
  first.take size == second.take size

theorem strncmpEq_iff
    {first second : CString}
    {size : Nat}
    (short : first.length < size) :
    strncmpEq first second size = true ↔ first = second := by
  simp only [strncmpEq, beq_iff_eq, List.take_of_length_le short.le]
  constructor
  · intro same
    have bound : (second.take size).length < size := same ▸ short
    have whole : second.length < size := by
      rw [List.length_take] at bound
      omega
    rw [same, List.take_of_length_le whole.le]
  · rintro rfl
    exact (List.take_of_length_le short.le).symm

/-- The digits `%d` and `%lld` print for a number that is not negative. -/
def decimalNat (n : Nat) : CString :=
  (Nat.toDigits 10 n).map CChar.ofChar

/-- `%d` and `%lld` -/
def decimal (n : Int) : CString :=
  if n < 0 then CChar.ofChar '-' :: decimalNat n.natAbs else decimalNat n.natAbs

theorem CChar.val_ofChar_of_isDigit
    {c : Char}
    (digit : c.isDigit = true) :
    (CChar.ofChar c).val.toNat = c.toNat := by
  simp only [Char.isDigit, Bool.and_eq_true, decide_eq_true_eq] at digit
  obtain ⟨low, high⟩ := digit
  have lower : 48 ≤ c.toNat := UInt32.le_iff_toNat_le.mp low
  have upper : c.toNat ≤ 57 := UInt32.le_iff_toNat_le.mp high
  have small : (UInt8.ofNat c.toNat).toNat = c.toNat := by
    rw [UInt8.toNat_ofNat']
    omega
  have nonzero : UInt8.ofNat c.toNat ≠ 0 := by
    intro zero
    rw [zero] at small
    simp at small
    omega
  rw [CChar.ofChar, dif_pos nonzero, small]

/-- The value of a decimal digit. -/
def digitValue? (c : CChar) : Option Nat :=
  if 48 ≤ c.val ∧ c.val ≤ 57 then some (c.val.toNat - 48) else none

theorem digitValue?_ofChar
    {c : Char}
    (digit : c.isDigit = true) :
    digitValue? (CChar.ofChar c) = some (c.toNat - '0'.toNat) := by
  have value := CChar.val_ofChar_of_isDigit digit
  simp only [Char.isDigit, Bool.and_eq_true, decide_eq_true_eq] at digit
  have lower : 48 ≤ c.toNat := UInt32.le_iff_toNat_le.mp digit.1
  have upper : c.toNat ≤ 57 := UInt32.le_iff_toNat_le.mp digit.2
  have inRange :
      48 ≤ (CChar.ofChar c).val ∧ (CChar.ofChar c).val ≤ 57 := by
    simp only [UInt8.le_iff_toNat_le, value]
    exact ⟨lower, upper⟩
  rw [digitValue?, if_pos inRange, value]
  rfl

/-- A number is printed with digits and `-`. -/
theorem mem_decimal
    {n : Int}
    {c : CChar}
    (member : c ∈ decimal n) :
    c = CChar.ofChar '-' ∨ (digitValue? c).isSome = true := by
  have ofDigits :
      ∀ {m : Nat}, c ∈ decimalNat m → (digitValue? c).isSome = true := by
    intro m listed
    obtain ⟨d, inDigits, rfl⟩ := List.mem_map.mp listed
    have digit := Nat.isDigit_of_mem_toDigits (by decide) (by decide) inDigits
    rw [digitValue?_ofChar digit, Option.isSome_some]
  unfold decimal at member
  split at member
  · rcases List.mem_cons.mp member with sign | listed
    · exact Or.inl sign
    · exact Or.inr (ofDigits listed)
  · exact Or.inr (ofDigits member)

theorem not_mem_decimal
    {c : CChar}
    (other : ¬(c = CChar.ofChar '-' ∨ (digitValue? c).isSome = true))
    (n : Int) :
    c ∉ decimal n :=
  fun member => other (mem_decimal member)

/-- No number is printed with a `.` in it. -/
theorem dot_not_mem_decimal (n : Int) :
    CChar.ofChar '.' ∉ decimal n :=
  not_mem_decimal (by decide) n

/-- The leading digits of a string as a number, and what follows them. -/
def takeDigits : Nat → CString → Nat × CString
  | value, [] =>
      (value, [])
  | value, c :: rest =>
      match digitValue? c with
      | some digit => takeDigits (value * 10 + digit) rest
      | none => (value, c :: rest)

/--
`strtol(text, &endptr, 10)`: the value and the text at `endptr`.  Without a
digit nothing is converted and `endptr` is the whole text.
-/
def strtol (text : CString) : Int × CString :=
  let unspaced := text.dropWhile isspace
  let (negative, digits) :=
    match unspaced with
    | c :: rest =>
        if c = CChar.ofChar '-' then (true, rest)
        else if c = CChar.ofChar '+' then (false, rest)
        else (false, unspaced)
    | [] => (false, [])
  match digits with
  | c :: _ =>
      if (digitValue? c).isSome then
        let (value, rest) := takeDigits 0 digits
        (if negative then -(value : Int) else value, rest)
      else
        (0, text)
  | [] =>
      (0, text)

/--
`parse_int`: the whole text must be consumed and the value must fit an `int`
(`strtol` saturates at the bounds of `long`, which are refused as well).
-/
def parseInt (text : CString) : Option Int :=
  let (value, rest) := strtol text
  if rest ≠ [] then none
  else if value < -2147483648 ∨ value > 2147483647 then none
  else some value

example : parseInt (str "12") = some 12 := by decide

/-- `validate_username` -/
def validateUsername (username : CString) : Bool :=
  username ≠ [] && username.length < maxUsernameLength &&
    username.all fun c => isalnum c || c == CChar.ofChar '_'

/-- The characters of `invalid_chars`. -/
def isInvalidChar (c : CChar) : Bool :=
  (str "<>:\"|?*").contains c

/-- `validate_filename` -/
def validateFilename (filename : CString) : Bool :=
  filename ≠ [] && filename.length < maxFilenameLength &&
    filename.all fun c => !isInvalidChar c

theorem nonempty_of_validateFilename
    {filename : CString}
    (valid : validateFilename filename = true) :
    filename ≠ [] := by
  simp only [validateFilename, Bool.and_eq_true, decide_eq_true_eq] at valid
  exact valid.1.1

theorem length_of_validateFilename
    {filename : CString}
    (valid : validateFilename filename = true) :
    filename.length < maxFilenameLength := by
  simp only [validateFilename, Bool.and_eq_true, decide_eq_true_eq] at valid
  exact valid.1.2

/-- The loop of `count_words`; `inWord` is set inside a token. -/
def countWordsFrom (inWord : Bool) : CString → Nat
  | [] =>
      0
  | c :: rest =>
      if isspace c then
        countWordsFrom false rest
      else if inWord then
        countWordsFrom true rest
      else
        countWordsFrom true rest + 1

/-- `count_words` -/
def countWords (text : CString) : Nat :=
  countWordsFrom false text

/-- `count_chars` -/
def countChars (text : CString) : Nat :=
  text.countP fun c => !isspace c

theorem countWordsFrom_le (inWord : Bool) (text : CString) :
    countWordsFrom inWord text ≤ text.length := by
  induction text generalizing inWord with
  | nil =>
      exact Nat.le_refl _
  | cons c rest inductionHypothesis =>
      have outside := inductionHypothesis false
      have inside := inductionHypothesis true
      rw [countWordsFrom, List.length_cons]
      split
      · omega
      · split
        · omega
        · omega

theorem length_cString_le (bytes : RawBytes) :
    (cString bytes).length ≤ bytes.length := by
  induction bytes with
  | nil =>
      exact Nat.le_refl _
  | cons byte rest inductionHypothesis =>
      rw [cString]
      split
      · rw [List.length_cons, List.length_cons]
        omega
      · exact Nat.zero_le _

theorem countWords_cString_le (bytes : RawBytes) :
    countWords (cString bytes) ≤ bytes.length :=
  (countWordsFrom_le false _).trans (length_cString_le bytes)

theorem countChars_cString_le (bytes : RawBytes) :
    countChars (cString bytes) ≤ bytes.length :=
  List.countP_le_length.trans (length_cString_le bytes)

/-- The byte range `trim_string` leaves: leading and trailing space removed. -/
def trimString (text : CString) : CString :=
  ((text.dropWhile isspace).reverse.dropWhile isspace).reverse

/-- White space in front is all that `dropWhile` removes. -/
theorem dropWhile_of_head_solid
    {text : CString}
    (solid : ∀ c ∈ text.head?, isspace c = false) :
    text.dropWhile isspace = text := by
  cases text with
  | nil =>
      rfl
  | cons c rest =>
      simp only [List.dropWhile_cons, solid c rfl, Bool.false_eq_true,
        ↓reduceIte]

/-- A text that neither begins nor ends with white space is not trimmed. -/
theorem trimString_of_ends_solid
    {text : CString}
    (first : ∀ c ∈ text.head?, isspace c = false)
    (last : ∀ c ∈ text.getLast?, isspace c = false) :
    trimString text = text := by
  rw [trimString, dropWhile_of_head_solid first,
    dropWhile_of_head_solid (by rwa [List.head?_reverse]),
    List.reverse_reverse]

/-- A text without white space is not trimmed. -/
theorem trimString_of_no_space
    {text : CString}
    (solid : ∀ c ∈ text, isspace c = false) :
    trimString text = text :=
  trimString_of_ends_solid
    (fun c isFirst => solid c (List.mem_of_mem_head? isFirst))
    (fun c isLast => solid c (List.mem_of_mem_getLast? isLast))

/-- Trimming takes the line end off a line. -/
theorem trimString_append_space
    {text : CString}
    (first : ∀ c ∈ text.head?, isspace c = false)
    (last : ∀ c ∈ text.getLast?, isspace c = false)
    {space : CChar}
    (spaced : isspace space = true) :
    trimString (text ++ [space]) = text := by
  cases text with
  | nil =>
      simp only [trimString, List.nil_append, List.dropWhile_cons, spaced,
        ↓reduceIte, List.dropWhile_nil, List.reverse_nil]
  | cons c rest =>
      have kept :
          (c :: rest ++ [space]).dropWhile isspace = c :: rest ++ [space] :=
        dropWhile_of_head_solid first
      have solidEnd :
          (c :: rest).reverse.dropWhile isspace = (c :: rest).reverse :=
        dropWhile_of_head_solid (by rwa [List.head?_reverse])
      rw [trimString, kept, List.reverse_append, List.reverse_singleton,
        List.singleton_append, List.dropWhile_cons, if_pos spaced, solidEnd,
        List.reverse_reverse]

theorem trimString_sublist (text : CString) :
    (trimString text).Sublist text := by
  have front := List.dropWhile_sublist isspace (l := text)
  have back :=
    (List.dropWhile_sublist isspace
      (l := (text.dropWhile isspace).reverse)).reverse
  rw [List.reverse_reverse] at back
  exact back.trans front

end DistributedDocs
