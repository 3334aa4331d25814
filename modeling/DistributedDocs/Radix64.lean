import Mathlib.Data.Nat.Bitwise
import Mathlib.Data.List.Basic

namespace DistributedDocs

/-!
# Bytes in sextets

Three octets are four sextets.  What is left at the end is filled up with zero
bits, and with padding to a whole group.
-/

/-! ## Packed integers -/

theorem shiftLeft_or_of_lt
    {low width : Nat}
    (fits : low < 2 ^ width)
    (high : Nat) :
    high <<< width ||| low = high * 2 ^ width + low := by
  rw [← Nat.shiftLeft_add_eq_or_of_lt fits, Nat.shiftLeft_eq]

/-- Neighbouring fields are packed before they are shifted. -/
theorem shiftLeft_or_shiftLeft
    (high low width offset : Nat) :
    high <<< (width + offset) ||| low <<< offset =
      (high <<< width ||| low) <<< offset := by
  rw [Nat.shiftLeft_or_distrib, Nat.shiftLeft_add]

theorem packOctets
    (a : Nat)
    {b c : Nat}
    (bFits : b < 256)
    (cFits : c < 256) :
    a <<< 16 ||| b <<< 8 ||| c = a * 65536 + b * 256 + c := by
  rw [shiftLeft_or_shiftLeft a b 8 8, shiftLeft_or_of_lt bFits a,
    shiftLeft_or_of_lt cFits]
  omega

theorem packSextets
    (a : Nat)
    {b c d : Nat}
    (bFits : b < 64)
    (cFits : c < 64)
    (dFits : d < 64) :
    a <<< 18 ||| b <<< 12 ||| c <<< 6 ||| d =
      a * 262144 + b * 4096 + c * 64 + d := by
  rw [shiftLeft_or_shiftLeft a b 6 12, shiftLeft_or_of_lt bFits a,
    shiftLeft_or_shiftLeft _ c 6 6,
    shiftLeft_or_of_lt cFits (a * 2 ^ 6 + b),
    shiftLeft_or_of_lt dFits]
  omega

/-! ## Groups of four -/

/-- The sextets of three octets. -/
def sextets (a b c : Nat) : List Nat :=
  [a / 4, a % 4 * 16 + b / 16, b % 16 * 4 + c / 64, c % 64]

theorem lt_of_mem_sextets
    {a b c sextet : Nat}
    (aFits : a < 256)
    (bFits : b < 256)
    (cFits : c < 256)
    (listed : sextet ∈ sextets a b c) :
    sextet < 64 := by
  simp only [sextets, List.mem_cons, List.not_mem_nil, or_false] at listed
  omega

section Groups

variable
  {σ : Type}
  (symbol : Nat → σ)
  (pad : σ)

/-- The text of an octet string. -/
def radix64 : List UInt8 → List σ
  | [] =>
      []
  | [a] =>
      ((sextets a.toNat 0 0).take 2).map symbol ++ [pad, pad]
  | [a, b] =>
      ((sextets a.toNat b.toNat 0).take 3).map symbol ++ [pad]
  | a :: b :: c :: rest =>
      (sextets a.toNat b.toNat c.toNat).map symbol ++ radix64 rest

/-- Groups of four symbols, the last one with at most two paddings behind. -/
structure PaddedGroups (isSymbol : σ → Prop) (text : List σ) : Prop where
  nonempty : text ≠ []
  grouped : 4 ∣ text.length
  padded :
    ∃ body count,
      count ≤ 2 ∧ text = body ++ List.replicate count pad ∧
        ∀ c ∈ body, isSymbol c

theorem length_radix64 (bytes : List UInt8) :
    (radix64 symbol pad bytes).length = 4 * ((bytes.length + 2) / 3) := by
  induction bytes using radix64.induct with
  | case1 | case2 | case3 =>
      simp [radix64, sextets]
  | case4 a b c rest inductionHypothesis =>
      simp only [radix64, sextets, List.map_cons, List.map_nil,
        List.length_append, List.length_cons, List.length_nil,
        inductionHypothesis]
      omega

/-- Octets that do not fill a group are followed by padding. -/
theorem pad_mem_radix64
    {bytes : List UInt8}
    (partialGroup : ¬3 ∣ bytes.length) :
    pad ∈ radix64 symbol pad bytes := by
  induction bytes using radix64.induct with
  | case1 =>
      exact absurd (Nat.dvd_zero 3) partialGroup
  | case2 | case3 =>
      simp [radix64]
  | case4 a b c rest inductionHypothesis =>
      have restPartial : ¬3 ∣ rest.length := by
        rw [List.length_cons, List.length_cons, List.length_cons]
          at partialGroup
        omega
      exact List.mem_append_right _ (inductionHypothesis restPartial)

end Groups

end DistributedDocs
