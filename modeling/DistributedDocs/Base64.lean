import DistributedDocs.CString
import DistributedDocs.Radix64

namespace DistributedDocs

/-!
# Base64

`base64_decode` tests the third and the fourth character of a group against the
wrong value: padding is rejected there, and a character outside the alphabet is
skipped.
-/

/-- `BASE64_TABLE` -/
def base64Table : CString :=
  str "ABCDEFGHIJKLMNOPQRSTUVWXYZabcdefghijklmnopqrstuvwxyz0123456789+/"

/-- The padding character. -/
def base64Padding : CChar :=
  CChar.ofChar '='

/-- `BASE64_TABLE[sextet]` -/
def base64Char (sextet : Nat) : CChar :=
  base64Table.getD sextet base64Padding

/-- `base64_value` -/
def base64Value (c : CChar) : Int :=
  if 65 ≤ c.val ∧ c.val ≤ 90 then c.val.toNat - 65
  else if 97 ≤ c.val ∧ c.val ≤ 122 then c.val.toNat - 97 + 26
  else if 48 ≤ c.val ∧ c.val ≤ 57 then c.val.toNat - 48 + 52
  else if c = CChar.ofChar '+' then 62
  else if c = CChar.ofChar '/' then 63
  else if c = base64Padding then -2
  else -1

/-! ## Encoding -/

/-- The four characters of three octets. -/
def base64Group (octetA octetB octetC : Nat) : CString :=
  let triple := octetA <<< 16 ||| octetB <<< 8 ||| octetC
  [base64Char (triple >>> 18 &&& 0x3F), base64Char (triple >>> 12 &&& 0x3F),
    base64Char (triple >>> 6 &&& 0x3F), base64Char (triple &&& 0x3F)]

/-- The loop of `base64_encode`; zeros fill up the last group. -/
def base64Groups : RawBytes → CString
  | [] =>
      []
  | [a] =>
      base64Group a.toNat 0 0
  | [a, b] =>
      base64Group a.toNat b.toNat 0
  | a :: b :: c :: rest =>
      base64Group a.toNat b.toNat c.toNat ++ base64Groups rest

/-- `base64_encode` -/
def base64Encode (input : RawBytes) : CString :=
  let outputLength := 4 * ((input.length + 2) / 3)
  let encoded := base64Groups input
  let mod := input.length % 3
  if mod > 0 then
    let padded := encoded.set (outputLength - 1) base64Padding
    if mod = 1 then padded.set (outputLength - 2) base64Padding else padded
  else
    encoded

/-! ## Decoding -/

/-- Write one more octet if there is room for it. -/
def writeOctet (decodedLength octet : Nat) (decoded : RawBytes) : RawBytes :=
  if decoded.length < decodedLength then
    decoded ++ [UInt8.ofNat (octet &&& 0xFF)]
  else
    decoded

/-- The loop of `base64_decode`, with what it has written. -/
def decodeGroups (decodedLength : Nat) :
    CString → RawBytes → Option RawBytes
  | a :: b :: c :: d :: rest, decoded =>
      let sextetA := base64Value a
      let sextetB := base64Value b
      let sextetC := base64Value c
      let sextetD := base64Value d
      if sextetA < 0 ∨ sextetB < 0 ∨ sextetC < -1 ∨ sextetD < -1 then
        none
      else
        let triple := sextetA.toNat <<< 18 ||| sextetB.toNat <<< 12
        let triple :=
          if sextetC ≥ 0 then triple ||| sextetC.toNat <<< 6 else triple
        let triple := if sextetD ≥ 0 then triple ||| sextetD.toNat else triple
        let decoded := writeOctet decodedLength (triple >>> 16) decoded
        let decoded :=
          if sextetC ≥ 0 then writeOctet decodedLength (triple >>> 8) decoded
          else decoded
        let decoded :=
          if sextetD ≥ 0 then writeOctet decodedLength triple decoded
          else decoded
        decodeGroups decodedLength rest decoded
  | _, decoded =>
      some decoded

/--
`base64_decode`; the bytes of its buffer that it has not written are `none`.
-/
def base64Decode (input : CString) : Option (List (Option UInt8)) :=
  if input.length = 0 ∨ input.length % 4 ≠ 0 then
    none
  else
    let padding :=
      (if input[input.length - 1]? = some base64Padding then 1 else 0) +
        if input[input.length - 2]? = some base64Padding then 1 else 0
    let decodedLength := input.length / 4 * 3 - padding
    (decodeGroups decodedLength input []).map fun decoded =>
      decoded.map some ++
        List.replicate (decodedLength - decoded.length) none

example : base64Encode (rawBytes (str "Many")) = str "TWFueQ==" := by
  decide +kernel

/-! ## The alphabet -/

theorem forall_cChar
    {property : CChar → Prop}
    (holds :
      ∀ n < 256, ∀ nonzero : UInt8.ofNat n ≠ 0,
        property ⟨UInt8.ofNat n, nonzero⟩)
    (c : CChar) :
    property c := by
  obtain ⟨byte, nonzero⟩ := c
  have same : UInt8.ofNat byte.toNat = byte := UInt8.ofNat_toNat
  have known := holds byte.toNat byte.toNat_lt
  simp only [same] at known
  exact known nonzero

theorem base64Value_base64Char :
    ∀ sextet < 64, base64Value (base64Char sextet) = sextet := by
  decide +kernel

theorem base64Char_base64Value :
    ∀ c : CChar, 0 ≤ base64Value c →
      base64Value c < 64 ∧ base64Char (base64Value c).toNat = c :=
  forall_cChar (by decide +kernel)

/-- The alphabet is what has a value. -/
theorem base64Value_nonneg_iff (c : CChar) :
    0 ≤ base64Value c ↔ c ∈ base64Table := by
  have size : base64Table.length = 64 := by
    decide
  constructor
  · intro nonneg
    obtain ⟨fits, same⟩ := base64Char_base64Value c nonneg
    have inTable : (base64Value c).toNat < base64Table.length := by
      omega
    rw [base64Char, List.getD_eq_getElem _ _ inTable] at same
    rw [← same]
    exact List.getElem_mem inTable
  · intro listed
    obtain ⟨sextet, inTable, rfl⟩ := List.getElem_of_mem listed
    have value := base64Value_base64Char sextet (by omega)
    rw [base64Char, List.getD_eq_getElem _ _ inTable] at value
    rw [value]
    exact Int.natCast_nonneg sextet

theorem base64Value_ge_iff :
    ∀ c : CChar, -1 ≤ base64Value c ↔ c ≠ base64Padding :=
  forall_cChar (by decide +kernel)

theorem base64Padding_not_mem : base64Padding ∉ base64Table := by
  decide

/-! ## Groups -/

theorem and_0x3F (n : Nat) : n &&& 0x3F = n % 64 :=
  Nat.and_two_pow_sub_one_eq_mod n 6

theorem and_0xFF (n : Nat) : n &&& 0xFF = n % 256 :=
  Nat.and_two_pow_sub_one_eq_mod n 8

theorem base64Group_eq
    (a b c : UInt8) :
    base64Group a.toNat b.toNat c.toNat =
      (sextets a.toNat b.toNat c.toNat).map base64Char := by
  have aFits := a.toNat_lt
  have bFits := b.toNat_lt
  have cFits := c.toNat_lt
  have first :
      (a.toNat * 65536 + b.toNat * 256 + c.toNat) / 2 ^ 18 % 64 =
        a.toNat / 4 := by
    omega
  have second :
      (a.toNat * 65536 + b.toNat * 256 + c.toNat) / 2 ^ 12 % 64 =
        a.toNat % 4 * 16 + b.toNat / 16 := by
    omega
  have third :
      (a.toNat * 65536 + b.toNat * 256 + c.toNat) / 2 ^ 6 % 64 =
        b.toNat % 16 * 4 + c.toNat / 64 := by
    omega
  have fourth :
      (a.toNat * 65536 + b.toNat * 256 + c.toNat) % 64 = c.toNat % 64 := by
    omega
  simp only [base64Group, packOctets a.toNat bFits cFits, and_0x3F,
    Nat.shiftRight_eq_div_pow, first, second, third, fourth, sextets,
    List.map_cons, List.map_nil]

theorem writeOctet_of_room
    {decodedLength octet : Nat}
    {decoded : RawBytes}
    (room : decoded.length < decodedLength)
    (byte : UInt8)
    (same : octet % 256 = byte.toNat) :
    writeOctet decodedLength octet decoded = decoded ++ [byte] := by
  rw [writeOctet, if_pos room, and_0xFF, same, UInt8.ofNat_toNat]

/-- A whole group gives its three octets back. -/
theorem decodeGroups_base64Group
    {decodedLength : Nat}
    {decoded : RawBytes}
    (room : decoded.length + 3 ≤ decodedLength)
    (a b c : UInt8)
    (rest : CString) :
    decodeGroups decodedLength
        (base64Group a.toNat b.toNat c.toNat ++ rest) decoded =
      decodeGroups decodedLength rest (decoded ++ [a, b, c]) := by
  have aFits := a.toNat_lt
  have bFits := b.toNat_lt
  have cFits := c.toNat_lt
  have fits : ∀ sextet ∈ sextets a.toNat b.toNat c.toNat, sextet < 64 :=
    fun _ listed => lt_of_mem_sextets aFits bFits cFits listed
  have values :
      ∀ sextet ∈ sextets a.toNat b.toNat c.toNat,
        base64Value (base64Char sextet) = sextet :=
    fun sextet listed => base64Value_base64Char sextet (fits sextet listed)
  simp only [sextets, List.forall_mem_cons] at fits values
  obtain ⟨firstValue, secondValue, thirdValue, fourthValue, _⟩ := values
  obtain ⟨_, secondFits, thirdFits, fourthFits, _⟩ := fits
  rw [base64Group_eq]
  simp only [sextets, List.map_cons, List.map_nil, List.cons_append,
    List.nil_append, decodeGroups, firstValue, secondValue, thirdValue,
    fourthValue]
  rw [if_neg (by omega)]
  simp only [ge_iff_le, Int.natCast_nonneg, ↓reduceIte, Int.toNat_natCast]
  rw [packSextets _ secondFits thirdFits fourthFits]
  generalize packed :
    a.toNat / 4 * 262144 + (a.toNat % 4 * 16 + b.toNat / 16) * 4096 +
      (b.toNat % 16 * 4 + c.toNat / 64) * 64 + c.toNat % 64 = triple
  have first : (triple >>> 16) % 256 = a.toNat := by
    rw [Nat.shiftRight_eq_div_pow]
    omega
  have second : (triple >>> 8) % 256 = b.toNat := by
    rw [Nat.shiftRight_eq_div_pow]
    omega
  have third : triple % 256 = c.toNat := by
    omega
  rw [writeOctet_of_room (by omega) a first,
    writeOctet_of_room (by simp; omega) b second,
    writeOctet_of_room (by simp; omega) c third]
  simp only [List.append_assoc, List.cons_append, List.nil_append]

/-- Octets that fill their groups are decoded. -/
theorem decodeGroups_base64Groups
    {decodedLength : Nat}
    {decoded bytes : RawBytes}
    (wholeGroups : 3 ∣ bytes.length)
    (room : decoded.length + bytes.length ≤ decodedLength) :
    decodeGroups decodedLength (base64Groups bytes) decoded =
      some (decoded ++ bytes) := by
  induction bytes using base64Groups.induct generalizing decoded with
  | case1 =>
      simp [base64Groups, decodeGroups]
  | case2 | case3 =>
      simp at wholeGroups
  | case4 a b c rest inductionHypothesis =>
      simp only [List.length_cons] at wholeGroups room
      have restWhole : 3 ∣ rest.length := by
        omega
      rw [base64Groups, decodeGroups_base64Group (by omega),
        inductionHypothesis restWhole (by simp; omega)]
      simp

/-- What the loop takes for a group. -/
def ReadGroups : CString → Prop
  | a :: b :: c :: d :: rest =>
      (a ∈ base64Table ∧ b ∈ base64Table ∧ c ≠ base64Padding ∧
          d ≠ base64Padding) ∧
        ReadGroups rest
  | _ =>
      True

theorem decodeGroups_ne_none_iff
    (decodedLength : Nat)
    (text : CString)
    (decoded : RawBytes) :
    decodeGroups decodedLength text decoded ≠ none ↔ ReadGroups text := by
  induction text using ReadGroups.induct generalizing decoded with
  | case1 a b c d rest inductionHypothesis =>
      rw [decodeGroups, ReadGroups, ← base64Value_nonneg_iff,
        ← base64Value_nonneg_iff, ← base64Value_ge_iff, ← base64Value_ge_iff]
      split
      · next refused =>
        simp only [ne_eq, not_true_eq_false, false_iff]
        omega
      · next taken =>
        rw [inductionHypothesis, and_iff_right (by omega)]
  | case2 text short =>
      rw [decodeGroups, ReadGroups] <;> simp_all

theorem base64Padding_not_mem_of_readGroups
    {text : CString}
    (grouped : 4 ∣ text.length)
    (read : ReadGroups text) :
    base64Padding ∉ text := by
  induction text using ReadGroups.induct with
  | case1 a b c d rest inductionHypothesis =>
      obtain ⟨⟨first, second, third, fourth⟩, later⟩ := read
      simp only [List.length_cons] at grouped
      have none := inductionHypothesis (by omega) later
      have notFirst : base64Padding ≠ a := by
        rintro rfl
        exact base64Padding_not_mem first
      have notSecond : base64Padding ≠ b := by
        rintro rfl
        exact base64Padding_not_mem second
      simp [notFirst, notSecond, third.symm, fourth.symm, none]
  | case2 text short =>
      rcases text with _ | ⟨a, _ | ⟨b, _ | ⟨c, _ | ⟨d, rest⟩⟩⟩⟩
      · exact List.not_mem_nil
      · simp at grouped
      · simp at grouped
      · simp at grouped
      · exact (short a b c d rest rfl).elim

/-! ## Whole texts -/

theorem length_base64Groups (bytes : RawBytes) :
    (base64Groups bytes).length = 4 * ((bytes.length + 2) / 3) := by
  induction bytes using base64Groups.induct with
  | case1 | case2 | case3 =>
      simp [base64Groups, base64Group]
  | case4 a b c rest inductionHypothesis =>
      simp only [base64Groups, base64Group, List.length_append,
        List.length_cons, List.length_nil, inductionHypothesis]
      omega

/-- The padding at the end does not touch the groups in front. -/
theorem base64Encode_group
    (a b c : UInt8)
    (rest : RawBytes) :
    base64Encode (a :: b :: c :: rest) =
      base64Group a.toNat b.toNat c.toNat ++ base64Encode rest := by
  have groupLength :
      (base64Group a.toNat b.toNat c.toNat).length = 4 :=
    rfl
  have sameMod : (rest.length + 1 + 1 + 1) % 3 = rest.length % 3 := by
    omega
  have behind :
      ∀ back, 1 ≤ back → back ≤ 2 → rest.length % 3 > 0 →
        4 * ((rest.length + 1 + 1 + 1 + 2) / 3) - back =
          4 + (4 * ((rest.length + 2) / 3) - back) := by
    omega
  simp only [base64Encode, base64Groups, List.length_cons, sameMod]
  by_cases partialGroup : rest.length % 3 > 0
  · rw [if_pos partialGroup, if_pos partialGroup,
      behind 1 (by omega) (by omega) partialGroup,
      behind 2 (by omega) (by omega) partialGroup]
    split
    · simp [groupLength]
    · simp [groupLength]
  · rw [if_neg partialGroup, if_neg partialGroup]

/-- What is encoded is the padded text of the bytes. -/
theorem base64Encode_eq_radix64 (bytes : RawBytes) :
    base64Encode bytes = radix64 base64Char base64Padding bytes := by
  induction bytes using radix64.induct with
  | case1 =>
      rfl
  | case2 a =>
      have group :
          base64Group a.toNat 0 0 = (sextets a.toNat 0 0).map base64Char :=
        base64Group_eq a 0 0
      simp [base64Encode, base64Groups, radix64, group, sextets]
  | case3 a b =>
      have group :
          base64Group a.toNat b.toNat 0 =
            (sextets a.toNat b.toNat 0).map base64Char :=
        base64Group_eq a b 0
      simp [base64Encode, base64Groups, radix64, group, sextets]
  | case4 a b c rest inductionHypothesis =>
      rw [base64Encode_group, inductionHypothesis, base64Group_eq, radix64]

theorem base64Decode_ne_none_iff (text : CString) :
    base64Decode text ≠ none ↔
      text ≠ [] ∧ 4 ∣ text.length ∧ ReadGroups text := by
  rw [base64Decode]
  split
  · next refused =>
    rw [List.length_eq_zero_iff] at refused
    simp only [ne_eq, not_true_eq_false, false_iff]
    rintro ⟨nonempty, grouped, _⟩
    rcases refused with isEmpty | ungrouped
    · exact nonempty isEmpty
    · exact ungrouped (Nat.mod_eq_zero_of_dvd grouped)
  · next taken =>
    rw [not_or, List.length_eq_zero_iff, not_not] at taken
    rw [ne_eq, Option.map_eq_none_iff, ← ne_eq, decodeGroups_ne_none_iff,
      and_iff_right taken.1,
      and_iff_right (Nat.dvd_of_mod_eq_zero taken.2)]

/-- Bytes that fill their groups come back. -/
theorem base64Decode_base64Encode
    {bytes : RawBytes}
    (wholeGroups : 3 ∣ bytes.length)
    (nonempty : bytes ≠ []) :
    base64Decode (base64Encode bytes) = some (bytes.map some) := by
  have encoded : base64Encode bytes = base64Groups bytes := by
    rw [base64Encode, if_neg]
    omega
  have size : (base64Groups bytes).length / 4 * 3 = bytes.length := by
    rw [length_base64Groups]
    omega
  have grouped : 4 ∣ (base64Groups bytes).length := by
    rw [length_base64Groups]
    exact Nat.dvd_mul_right _ _
  have decoded :
      decodeGroups bytes.length (base64Groups bytes) [] = some bytes :=
    decodeGroups_base64Groups wholeGroups (by simp)
  have noPadding : base64Padding ∉ base64Groups bytes := by
    apply base64Padding_not_mem_of_readGroups grouped
    apply (decodeGroups_ne_none_iff bytes.length _ []).mp
    rw [decoded]
    exact Option.some_ne_none bytes
  have noneAt :
      ∀ i, (base64Groups bytes)[i]? ≠ some base64Padding :=
    fun i found => noPadding (List.mem_of_getElem? found)
  have nonemptyLength := List.length_pos_iff.mpr nonempty
  rw [encoded, base64Decode, if_neg (by omega)]
  simp only [noneAt, ↓reduceIte, Nat.add_zero, Nat.sub_zero, size, decoded,
    Option.map_some, Nat.sub_self, List.replicate_zero, List.append_nil]

/-- What `base64_encode` owes a string of bytes. -/
def DecodesBack (bytes : RawBytes) : Prop :=
  base64Encode bytes = radix64 base64Char base64Padding bytes ∧
    (base64Encode bytes).length = 4 * ((bytes.length + 2) / 3) ∧
    (bytes ≠ [] →
      base64Decode (base64Encode bytes) = some (bytes.map some))

/-- What `base64_decode` owes a string: it fails unless it is well formed. -/
def RefusesMalformed (text : CString) : Prop :=
  ¬PaddedGroups base64Padding (· ∈ base64Table) text →
    base64Decode text = none

/-- Groups with a character that is neither of the alphabet nor padding. -/
def Misread (text : CString) : Prop :=
  text ≠ [] ∧ 4 ∣ text.length ∧ ReadGroups text ∧
    ∃ c ∈ text, c ∉ base64Table

theorem decodesBack_iff (bytes : RawBytes) :
    DecodesBack bytes ↔ 3 ∣ bytes.length := by
  have encoded := base64Encode_eq_radix64 bytes
  constructor
  · intro decodesBack
    by_contra partialGroup
    have nonempty : bytes ≠ [] := by
      rintro rfl
      exact partialGroup (Nat.dvd_zero 3)
    have read : base64Decode (base64Encode bytes) ≠ none := by
      rw [decodesBack.2.2 nonempty]
      exact nofun
    obtain ⟨_, grouped, readGroups⟩ :=
      (base64Decode_ne_none_iff _).mp read
    apply base64Padding_not_mem_of_readGroups grouped readGroups
    rw [encoded]
    exact pad_mem_radix64 base64Char base64Padding partialGroup
  · intro wholeGroups
    refine ⟨encoded, ?_, ?_⟩
    · rw [encoded, length_radix64]
    · exact base64Decode_base64Encode wholeGroups

theorem refusesMalformed_iff (text : CString) :
    RefusesMalformed text ↔ ¬Misread text := by
  constructor
  · rintro refuses ⟨nonempty, grouped, read, c, listed, foreign⟩
    have wellFormed : PaddedGroups base64Padding (· ∈ base64Table) text := by
      by_contra malformed
      exact (base64Decode_ne_none_iff text).mpr ⟨nonempty, grouped, read⟩
        (refuses malformed)
    obtain ⟨body, count, _, rfl, letters⟩ := wellFormed.padded
    rcases List.mem_append.mp listed with inBody | isPadding
    · exact foreign (letters c inBody)
    · rw [List.eq_of_mem_replicate isPadding] at listed
      exact base64Padding_not_mem_of_readGroups grouped read listed
  · intro notMisread malformed
    by_contra read
    obtain ⟨nonempty, grouped, readGroups⟩ :=
      (base64Decode_ne_none_iff text).mp read
    have letters : ∀ c ∈ text, c ∈ base64Table := by
      by_contra foreign
      push Not at foreign
      exact notMisread ⟨nonempty, grouped, readGroups, foreign⟩
    apply malformed
    exact
      { nonempty := nonempty
        grouped := grouped
        padded := ⟨text, 0, by omega, by simp, letters⟩ }

/--
Encoding always gives the padded text, but it is decoded only if there is no
padding, and what is refused are the malformed texts that are not misread.
-/
theorem base64_iff
    (bytes : RawBytes)
    (text : CString) :
    (DecodesBack bytes ↔ 3 ∣ bytes.length) ∧
      (RefusesMalformed text ↔ ¬Misread text) :=
  ⟨decodesBack_iff bytes, refusesMalformed_iff text⟩

/-- A single byte is encoded with padding, which the decoder rejects. -/
theorem not_base64 :
    ¬((∀ bytes : RawBytes, DecodesBack bytes) ∧
      ∀ text : CString, RefusesMalformed text) := by
  rintro ⟨decodesBack, _⟩
  have decoded := (decodesBack [65]).2.2 (by decide)
  exact absurd decoded (by decide +kernel)

end DistributedDocs
