import DistributedDocs.CString

namespace DistributedDocs

/-!
# Numbers in texts

What `atoi` and `atoll` make of a number that `%d` or `%lld` printed.
-/

/-- The values of `int`. -/
def FitsInt (n : Int) : Prop :=
  -2147483648 ≤ n ∧ n ≤ 2147483647

/-- The values of `long long` and of `time_t`. -/
def FitsLongLong (n : Int) : Prop :=
  -9223372036854775808 ≤ n ∧ n ≤ 9223372036854775807

instance (n : Int) : Decidable (FitsLongLong n) :=
  inferInstanceAs (Decidable (_ ∧ _))

/-- Signed arithmetic is done in two's complement: `int` keeps 32 bits. -/
def toInt (n : Int) : Int :=
  n.bmod 4294967296

/-- `long long` keeps 64 bits. -/
def toLongLong (n : Int) : Int :=
  n.bmod 18446744073709551616

theorem toInt_of_fits
    {n : Int}
    (fits : FitsInt n) :
    toInt n = n := by
  obtain ⟨low, high⟩ := fits
  exact Int.bmod_eq_of_le (by omega) (by omega)

theorem toLongLong_of_fits
    {n : Int}
    (fits : FitsLongLong n) :
    toLongLong n = n := by
  obtain ⟨low, high⟩ := fits
  exact Int.bmod_eq_of_le (by omega) (by omega)

/-- A sum may be cut to 64 bits after each summand or at its end. -/
theorem toLongLong_add_toLongLong (m n : Int) :
    toLongLong (m + toLongLong n) = toLongLong (m + n) :=
  Int.add_bmod_bmod

/-- `atoll`: a value out of range saturates. -/
def atoll (text : CString) : Int :=
  max (-9223372036854775808) (min 9223372036854775807 (strtol text).1)

/-- `atoi`: the value of `strtol` cut to 32 bits. -/
def atoi (text : CString) : Int :=
  toInt (atoll text)

/-- A text whose first character is no digit ends a number. -/
def EndsNumber (text : CString) : Prop :=
  ∀ c ∈ text.head?, digitValue? c = none

theorem takeDigits_sublist (value : Nat) (text : CString) :
    (takeDigits value text).2.Sublist text := by
  induction text generalizing value with
  | nil =>
      exact List.Sublist.refl _
  | cons c rest inductionHypothesis =>
      rw [takeDigits]
      split
      · exact (inductionHypothesis _).cons c
      · exact List.Sublist.refl _

/-- What follows a number is part of the text. -/
theorem strtol_sublist (text : CString) :
    (strtol text).2.Sublist text := by
  have unspaced := List.dropWhile_sublist isspace (l := text)
  have converted :
      ∀ {digits : CString}, digits.Sublist text →
        (takeDigits 0 digits).2.Sublist text :=
    fun inText => (takeDigits_sublist 0 _).trans inText
  unfold strtol
  cases front : text.dropWhile isspace with
  | nil =>
      exact List.Sublist.refl text
  | cons c rest =>
      rw [front] at unspaced
      have behindSign :
          (if c = CChar.ofChar '-' then (true, rest)
            else if c = CChar.ofChar '+' then (false, rest)
            else (false, c :: rest)).2.Sublist text := by
        split
        · exact (List.sublist_cons_self c rest).trans unspaced
        · split
          · exact (List.sublist_cons_self c rest).trans unspaced
          · exact unspaced
      simp only
      split
      · split
        · exact converted behindSign
        · exact List.Sublist.refl text
      · exact List.Sublist.refl text

theorem takeDigits_append
    {digits : List Char}
    (allDigits : ∀ c ∈ digits, c.isDigit = true)
    {rest : CString}
    (ends : EndsNumber rest)
    (value : Nat) :
    takeDigits value (digits.map CChar.ofChar ++ rest) =
      (Nat.ofDigitChars 10 digits value, rest) := by
  induction digits generalizing value with
  | nil =>
      cases rest with
      | nil =>
          rfl
      | cons c later =>
          have stops : digitValue? c = none := ends c rfl
          simp only [List.map_nil, List.nil_append, takeDigits, stops,
            Nat.ofDigitChars_nil]
  | cons c digits inductionHypothesis =>
      have digit : digitValue? (CChar.ofChar c) = some (c.toNat - '0'.toNat) :=
        digitValue?_ofChar (allDigits c List.mem_cons_self)
      have recursive :=
        inductionHypothesis
          (fun d member => allDigits d (List.mem_cons_of_mem c member))
          (value * 10 + (c.toNat - '0'.toNat))
      simp only [List.map_cons, List.cons_append, takeDigits, digit, recursive,
        Nat.ofDigitChars_cons, Nat.mul_comm 10 value]

/-- The digits of a number are read back. -/
theorem takeDigits_decimalNat
    (n : Nat)
    {rest : CString}
    (ends : EndsNumber rest) :
    takeDigits 0 (decimalNat n ++ rest) = (n, rest) := by
  have allDigits : ∀ c ∈ Nat.toDigits 10 n, c.isDigit = true :=
    fun _ member =>
      Nat.isDigit_of_mem_toDigits (by decide) (by decide) member
  rw [decimalNat, takeDigits_append allDigits ends 0,
    Nat.ofDigitChars_ten_toDigits]

/-- A printed number begins with a digit. -/
theorem decimalNat_eq_cons (n : Nat) :
    ∃ c rest,
      decimalNat n = c :: rest ∧ (digitValue? c).isSome = true := by
  cases digits : Nat.toDigits 10 n with
  | nil =>
      exact absurd digits Nat.toDigits_ne_nil
  | cons c rest =>
      have listed : c ∈ Nat.toDigits 10 n := by
        rw [digits]
        exact List.mem_cons_self
      have digit := Nat.isDigit_of_mem_toDigits (by decide) (by decide) listed
      refine ⟨CChar.ofChar c, rest.map CChar.ofChar, ?_, ?_⟩
      · rw [decimalNat, digits, List.map_cons]
      · rw [digitValue?_ofChar digit, Option.isSome_some]

/-- `strtol` reads a printed number back. -/
theorem strtol_decimal
    (n : Int)
    {rest : CString}
    (ends : EndsNumber rest) :
    strtol (decimal n ++ rest) = (n, rest) := by
  obtain ⟨c, later, digits, isDigit⟩ := decimalNat_eq_cons n.natAbs
  have whole :
      takeDigits 0 (c :: (later ++ rest)) = (n.natAbs, rest) := by
    rw [← List.cons_append, ← digits]
    exact takeDigits_decimalNat n.natAbs ends
  rcases lt_or_ge n 0 with negative | nonneg
  · have sign : isspace (CChar.ofChar '-') = false := by decide
    have magnitude : -(n.natAbs : Int) = n := by omega
    simp only [decimal, if_pos negative, digits, List.cons_append, strtol,
      List.dropWhile_cons, sign, Bool.false_eq_true, ↓reduceIte, isDigit,
      whole, magnitude]
  · have noSpace : isspace c = false := by
      cases spaced : isspace c with
      | false =>
          rfl
      | true =>
          exact absurd isDigit (by
            rw [isspace] at spaced
            rw [digitValue?]
            simp only [Bool.or_eq_true, Bool.and_eq_true, beq_iff_eq,
              decide_eq_true_eq, UInt8.le_iff_toNat_le, ← UInt8.toNat_inj]
              at spaced ⊢
            rw [if_neg]
            · simp
            · rcases spaced with blank | control
              · simp [blank]
              · rintro ⟨low, _⟩
                have := control.2
                simp at low this
                omega)
    have unsigned : c ≠ CChar.ofChar '-' ∧ c ≠ CChar.ofChar '+' := by
      refine ⟨?_, ?_⟩
      · rintro rfl
        exact absurd isDigit (by decide)
      · rintro rfl
        exact absurd isDigit (by decide)
    have magnitude : (n.natAbs : Int) = n := by omega
    simp only [decimal, if_neg (Int.not_lt.mpr nonneg), digits,
      List.cons_append, strtol, List.dropWhile_cons, noSpace,
      Bool.false_eq_true, ↓reduceIte, if_neg unsigned.1, if_neg unsigned.2,
      isDigit, whole, magnitude]

/-- `atoll` reads a printed `long long` back. -/
theorem atoll_decimal
    {n : Int}
    (fits : FitsLongLong n) :
    atoll (decimal n) = n := by
  have read : strtol (decimal n) = (n, []) := by
    have whole : decimal n ++ [] = decimal n := List.append_nil _
    rw [← whole]
    exact strtol_decimal n fun _ absent => nomatch absent
  obtain ⟨low, high⟩ := fits
  rw [atoll, read]
  omega

/-- `atoi` reads a printed `int` back. -/
theorem atoi_decimal
    {n : Int}
    (fits : FitsInt n) :
    atoi (decimal n) = n := by
  obtain ⟨low, high⟩ := fits
  rw [atoi, atoll_decimal ⟨by omega, by omega⟩]
  exact toInt_of_fits ⟨low, high⟩

/-- A printed `long long` has at most twenty characters. -/
theorem length_decimal_le
    {n : Int}
    (fits : FitsLongLong n) :
    (decimal n).length ≤ 20 := by
  obtain ⟨low, high⟩ := fits
  have digits : (decimalNat n.natAbs).length ≤ 19 := by
    rw [decimalNat, List.length_map,
      Nat.length_toDigits_le_iff (by decide) (by decide)]
    omega
  unfold decimal
  split
  · rw [List.length_cons]
    omega
  · omega

end DistributedDocs
