import Mathlib.Data.UInt
import Mathlib.Data.List.Basic

namespace DistributedDocs

/-!
# Least recently used caches

A cache is a row of slots in front of a partial map.  It is sound for the map
when every valid slot holds a key with the value the map has for it, and no
key stands in two valid slots.  A hit is trusted, so soundness is what makes
the cached answer the map's.
-/

variable {Key Value : Type*}

/-- A slot of a cache. -/
structure CacheEntry (Key Value : Type*) where
  key : Key
  value : Value
  valid : Bool
  lastUsed : UInt64
  deriving DecidableEq

namespace LookupCache

/-- Every valid slot is right, and no key has two of them. -/
structure Sound
    (content : Key → Option Value)
    (entries : List (CacheEntry Key Value)) : Prop where
  agrees :
    ∀ (slot : Nat) (entry : CacheEntry Key Value),
      entries[slot]? = some entry → entry.valid = true →
        content entry.key = some entry.value
  keys_apart :
    ∀ (first second : Nat) (entry other : CacheEntry Key Value),
      entries[first]? = some entry → entries[second]? = some other →
        entry.valid = true → other.valid = true →
          entry.key = other.key → first = second

/-- Every valid slot comes from the valid slot it was before. -/
def DerivedFrom
    (change : CacheEntry Key Value → CacheEntry Key Value → Prop)
    (before after : List (CacheEntry Key Value)) : Prop :=
  ∀ (slot : Nat) (entry : CacheEntry Key Value),
    after[slot]? = some entry → entry.valid = true →
      ∃ earlier, before[slot]? = some earlier ∧ earlier.valid = true ∧
        change earlier entry

/-- Slots changed one by one are sound if each change is right and injective. -/
theorem Sound.of_derivedFrom
    {content newContent : Key → Option Value}
    {before after : List (CacheEntry Key Value)}
    {change : CacheEntry Key Value → CacheEntry Key Value → Prop}
    (sound : Sound content before)
    (derived : DerivedFrom change before after)
    (right :
      ∀ earlier entry, change earlier entry →
        content earlier.key = some earlier.value →
          newContent entry.key = some entry.value)
    (injective :
      ∀ earlier entry earlierOther other,
        change earlier entry → change earlierOther other →
          content earlier.key = some earlier.value →
            content earlierOther.key = some earlierOther.value →
              entry.key = other.key → earlier.key = earlierOther.key) :
    Sound newContent after where
  agrees slot entry held valid := by
    obtain ⟨earlier, heldBefore, validBefore, changed⟩ :=
      derived slot entry held valid
    exact right earlier entry changed
      (sound.agrees slot earlier heldBefore validBefore)
  keys_apart first second entry other held otherHeld valid otherValid same := by
    obtain ⟨earlier, heldBefore, validBefore, changed⟩ :=
      derived first entry held valid
    obtain ⟨earlierOther, otherBefore, otherValidBefore, otherChanged⟩ :=
      derived second other otherHeld otherValid
    exact sound.keys_apart first second earlier earlierOther heldBefore
      otherBefore validBefore otherValidBefore
      (injective earlier entry earlierOther other changed otherChanged
        (sound.agrees first earlier heldBefore validBefore)
        (sound.agrees second earlierOther otherBefore otherValidBefore) same)

/-- A cache sound for a map is sound for every map that extends it. -/
theorem Sound.mono
    {content newContent : Key → Option Value}
    {entries : List (CacheEntry Key Value)}
    (sound : Sound content entries)
    (extended :
      ∀ key value, content key = some value →
        newContent key = some value) :
    Sound newContent entries where
  agrees slot entry held valid :=
    extended _ _ (sound.agrees slot entry held valid)
  keys_apart := sound.keys_apart

/-- A cache without valid slots is sound for every map. -/
theorem sound_of_free
    {content : Key → Option Value}
    {entries : List (CacheEntry Key Value)}
    (free : ∀ entry ∈ entries, entry.valid = false) :
    Sound content entries where
  agrees slot entry held valid := by
    rw [free entry (List.mem_of_getElem? held)] at valid
    cases valid
  keys_apart _ _ entry _ held _ valid := by
    rw [free entry (List.mem_of_getElem? held)] at valid
    cases valid

theorem DerivedFrom.cons
    {change : CacheEntry Key Value → CacheEntry Key Value → Prop}
    {first second : CacheEntry Key Value}
    {before after : List (CacheEntry Key Value)}
    (head :
      second.valid = true → first.valid = true ∧ change first second)
    (tail : DerivedFrom change before after) :
    DerivedFrom change (first :: before) (second :: after) := by
  intro slot entry held valid
  cases slot with
  | zero =>
      obtain rfl : second = entry := by simpa using held
      exact ⟨first, by simp, head valid⟩
  | succ rest =>
      obtain ⟨earlier, heldBefore, changed⟩ :=
        tail rest entry (by simpa using held) valid
      exact ⟨earlier, by simpa using heldBefore, changed⟩

/-! ## Looking up -/

section Operations

variable [DecidableEq Key]

/-- Whether a slot answers for a key. -/
def answersFor (key : Key) (entry : CacheEntry Key Value) : Bool :=
  entry.valid && entry.key = key

/--
The value of the first slot for the key that is still usable, which is marked
as used at `tick`; unusable ones in front of it are given up.
-/
def lookup
    (key : Key)
    (usable : Value → Bool)
    (tick : UInt64) :
    List (CacheEntry Key Value) →
      Option Value × List (CacheEntry Key Value)
  | [] =>
      (none, [])
  | entry :: rest =>
      if answersFor key entry then
        if usable entry.value then
          (some entry.value, { entry with lastUsed := tick } :: rest)
        else
          let (found, others) := lookup key usable tick rest
          (found, { entry with valid := false } :: others)
      else
        let (found, others) := lookup key usable tick rest
        (found, entry :: others)

/-- The slot used longest ago, of those used before `oldest`. -/
def oldestSlot :
    (position : Nat) →
      (oldest : UInt64) →
        (slot : Option Nat) → List (CacheEntry Key Value) → Option Nat
  | _, _, slot, [] =>
      slot
  | position, oldest, slot, entry :: rest =>
      if entry.lastUsed < oldest then
        oldestSlot (position + 1) entry.lastUsed (some position) rest
      else
        oldestSlot (position + 1) oldest slot rest

/-- The slot a key is stored in: its own, else a free one, else the oldest. -/
def slotFor (key : Key) (entries : List (CacheEntry Key Value)) :
    Option Nat :=
  match entries.findIdx? (answersFor key) with
  | some slot => some slot
  | none =>
      match entries.findIdx? fun entry => !entry.valid with
      | some slot => some slot
      | none => oldestSlot 0 (UInt64.ofNat (2 ^ 64 - 1)) none entries

/-- Fill a slot. -/
def fill
    (slot : Nat)
    (stored : Key)
    (value : Value)
    (tick : UInt64)
    (entries : List (CacheEntry Key Value)) :
    List (CacheEntry Key Value) :=
  entries.set slot ⟨stored, value, true, tick⟩

/-- Give the slots of a key a new key and value; each use takes a tick. -/
def rename
    (old new : Key)
    (value : Value) :
    (tick : UInt64) →
      List (CacheEntry Key Value) →
        List (CacheEntry Key Value) × UInt64
  | tick, [] =>
      ([], tick)
  | tick, entry :: rest =>
      if answersFor old entry then
        let (others, last) := rename old new value (tick + 1) rest
        (⟨new, value, true, tick + 1⟩ :: others, last)
      else
        let (others, last) := rename old new value tick rest
        (entry :: others, last)

/-! ## Soundness -/

variable
  {content : Key → Option Value}
  {entries : List (CacheEntry Key Value)}

/-- The key and the value of a slot stay. -/
def SameContent (earlier entry : CacheEntry Key Value) : Prop :=
  entry.key = earlier.key ∧ entry.value = earlier.value

theorem derivedFrom_lookup
    (key : Key)
    (usable : Value → Bool)
    (tick : UInt64)
    (entries : List (CacheEntry Key Value)) :
    DerivedFrom SameContent entries (lookup key usable tick entries).2 := by
  induction entries with
  | nil =>
      intro slot entry held
      simp [lookup] at held
  | cons entry rest inductionHypothesis =>
      simp only [lookup]
      split
      · split
        · refine .cons (fun valid => ⟨valid, rfl, rfl⟩) ?_
          exact fun slot entry held valid =>
            ⟨entry, held, valid, rfl, rfl⟩
        · exact .cons (fun valid => by cases valid) inductionHypothesis
      · exact .cons (fun valid => ⟨valid, rfl, rfl⟩) inductionHypothesis

theorem Sound.lookup
    (sound : Sound content entries)
    (key : Key)
    (usable : Value → Bool)
    (tick : UInt64) :
    Sound content (LookupCache.lookup key usable tick entries).2 := by
  refine sound.of_derivedFrom (derivedFrom_lookup key usable tick entries)
    ?_ ?_
  · rintro earlier entry ⟨sameKey, sameValue⟩ right
    rw [sameKey, sameValue, right]
  · rintro earlier entry earlierOther other ⟨sameKey, _⟩ ⟨otherKey, _⟩ _ _
      same
    rw [← sameKey, ← otherKey, same]

theorem exists_of_lookup
    {key : Key}
    {usable : Value → Bool}
    {tick : UInt64}
    {value : Value}
    (hit : (LookupCache.lookup key usable tick entries).1 = some value) :
    usable value = true ∧
      ∃ entry ∈ entries, answersFor key entry = true ∧
        entry.value = value := by
  induction entries with
  | nil =>
      simp [LookupCache.lookup] at hit
  | cons entry rest inductionHypothesis =>
      have later :
          (LookupCache.lookup key usable tick rest).1 = some value →
            usable value = true ∧
              ∃ later ∈ entry :: rest, answersFor key later = true ∧
                later.value = value := by
        intro hitLater
        obtain ⟨isUsable, later, member, answers⟩ :=
          inductionHypothesis hitLater
        exact ⟨isUsable, later, List.mem_cons_of_mem _ member, answers⟩
      simp only [LookupCache.lookup] at hit
      split at hit
      · next answers =>
        split at hit
        · next isUsable =>
          obtain rfl : entry.value = value := by simpa using hit
          exact ⟨isUsable, entry, by simp, answers, rfl⟩
        · exact later hit
      · exact later hit

/-- A hit gives the value of the map, and a usable one. -/
theorem Sound.lookup_hit
    (sound : Sound content entries)
    {key : Key}
    {usable : Value → Bool}
    {tick : UInt64}
    {value : Value}
    (hit : (LookupCache.lookup key usable tick entries).1 = some value) :
    content key = some value ∧ usable value = true := by
  obtain ⟨isUsable, entry, member, answers, rfl⟩ := exists_of_lookup hit
  simp only [answersFor, Bool.and_eq_true, decide_eq_true_eq] at answers
  obtain ⟨slot, held⟩ := List.getElem?_of_mem member
  exact ⟨answers.2 ▸ sound.agrees slot entry held answers.1, isUsable⟩

/-- No other valid slot has the key of the slot it is stored in. -/
theorem slotFor_spec
    {key : Key}
    {slot : Nat}
    (chosen : slotFor key entries = some slot)
    (sound : Sound content entries)
    {other : Nat}
    {entry : CacheEntry Key Value}
    (held : entries[other]? = some entry)
    (valid : entry.valid = true)
    (sameKey : entry.key = key) :
    other = slot := by
  have answers : answersFor key entry = true := by
    simp [answersFor, valid, sameKey]
  unfold slotFor at chosen
  cases own : entries.findIdx? (answersFor key) with
  | none =>
      rw [List.findIdx?_eq_none_iff] at own
      have refused := own entry (List.mem_of_getElem? held)
      rw [answers] at refused
      cases refused
  | some found =>
      rw [own] at chosen
      obtain rfl : found = slot := Option.some.inj chosen
      obtain ⟨bound, answersFound, _⟩ :=
        List.findIdx?_eq_some_iff_getElem.mp own
      simp only [answersFor, Bool.and_eq_true, decide_eq_true_eq]
        at answersFound
      exact sound.keys_apart other found entry entries[found] held
        (List.getElem?_eq_getElem bound) valid answersFound.1
        (sameKey.trans answersFound.2.symm)

/-- Storing what the map has for a key keeps the cache sound. -/
theorem Sound.fill
    (sound : Sound content entries)
    {key : Key}
    {slot : Nat}
    {value : Value}
    (chosen : slotFor key entries = some slot)
    (right : content key = some value)
    (tick : UInt64) :
    Sound content (LookupCache.fill slot key value tick entries) := by
  have held :
      ∀ (other : Nat) (entry : CacheEntry Key Value),
        (LookupCache.fill slot key value tick entries)[other]? =
            some entry →
          (other = slot ∧ entry.key = key ∧ entry.value = value) ∨
            (other ≠ slot ∧ entries[other]? = some entry) := by
    intro other entry held
    rw [LookupCache.fill, List.getElem?_set] at held
    by_cases same : slot = other
    · subst same
      simp only [↓reduceIte, Option.ite_none_right_eq_some] at held
      obtain ⟨_, filled⟩ := held
      obtain rfl := Option.some.inj filled
      exact Or.inl ⟨rfl, rfl, rfl⟩
    · rw [if_neg same] at held
      exact Or.inr ⟨Ne.symm same, held⟩
  constructor
  · intro other entry entryHeld valid
    rcases held other entry entryHeld with
      ⟨_, sameKey, sameValue⟩ | ⟨_, before⟩
    · rw [sameKey, sameValue, right]
    · exact sound.agrees other entry before valid
  · intro first second entry other entryHeld otherHeld valid otherValid same
    rcases held first entry entryHeld with
      ⟨firstIs, firstKey, _⟩ | ⟨firstNot, firstBefore⟩
    · rcases held second other otherHeld with
        ⟨secondIs, _, _⟩ | ⟨secondNot, secondBefore⟩
      · exact firstIs.trans secondIs.symm
      · exact absurd
          (slotFor_spec chosen sound secondBefore otherValid
            (same.symm.trans firstKey)) secondNot
    · rcases held second other otherHeld with
        ⟨_, secondKey, _⟩ | ⟨_, secondBefore⟩
      · exact absurd
          (slotFor_spec chosen sound firstBefore valid
            (same.trans secondKey)) firstNot
      · exact sound.keys_apart first second entry other firstBefore
          secondBefore valid otherValid same

/-- A slot of the old key becomes one of the new key; others stay. -/
def RenamedSlot
    (old new : Key)
    (value : Value)
    (earlier entry : CacheEntry Key Value) : Prop :=
  (earlier.key = old ∧ entry.key = new ∧ entry.value = value) ∨
    (earlier.key ≠ old ∧ SameContent earlier entry)

theorem derivedFrom_rename
    (old new : Key)
    (value : Value)
    (tick : UInt64)
    (entries : List (CacheEntry Key Value)) :
    DerivedFrom (RenamedSlot old new value) entries
      (rename old new value tick entries).1 := by
  induction entries generalizing tick with
  | nil =>
      intro slot entry held
      simp [rename] at held
  | cons entry rest inductionHypothesis =>
      simp only [rename]
      split
      · next answers =>
        simp only [answersFor, Bool.and_eq_true, decide_eq_true_eq]
          at answers
        exact .cons
          (fun _ => ⟨answers.1, Or.inl ⟨answers.2, rfl, rfl⟩⟩)
          (inductionHypothesis _)
      · next refused =>
        refine .cons (fun valid => ⟨valid, Or.inr ⟨?_, rfl, rfl⟩⟩)
          (inductionHypothesis _)
        simpa [answersFor, valid] using refused

/-- Renaming a key in the map and in the cache, to a key that was not mapped. -/
theorem Sound.rename
    (sound : Sound content entries)
    {newContent : Key → Option Value}
    {old new : Key}
    {value : Value}
    (fresh : content new = none)
    (renamed : newContent new = some value)
    (others :
      ∀ key, key ≠ old → key ≠ new → newContent key = content key)
    (tick : UInt64) :
    Sound newContent (LookupCache.rename old new value tick entries).1 := by
  refine sound.of_derivedFrom
    (derivedFrom_rename old new value tick entries) ?_ ?_
  · rintro earlier entry (⟨_, isNew, sameValue⟩ | ⟨notOld, sameKey, sameValue⟩)
      right
    · rw [isNew, sameValue, renamed]
    · have notNew : earlier.key ≠ new := by
        intro isNew
        rw [isNew, fresh] at right
        cases right
      rw [sameKey, sameValue, others _ notOld notNew, right]
  · rintro earlier entry earlierOther other
      (⟨isOld, isNew, _⟩ | ⟨_, sameKey, _⟩)
      (⟨otherOld, otherNew, _⟩ | ⟨_, otherKey, _⟩) right otherRight same
    · rw [isOld, otherOld]
    · rw [← otherKey, ← same, isNew, fresh] at otherRight
      cases otherRight
    · rw [← sameKey, same, otherNew, fresh] at right
      cases right
    · rw [← sameKey, ← otherKey, same]

omit [DecidableEq Key] in
/-- Slots that keep their keys, with values that are right afterwards. -/
theorem Sound.revalue
    (sound : Sound content entries)
    {newContent : Key → Option Value}
    {change : CacheEntry Key Value → CacheEntry Key Value}
    (sameKey : ∀ entry, (change entry).key = entry.key)
    (right :
      ∀ entry, (change entry).valid = true →
        entry.valid = true ∧
          (content entry.key = some entry.value →
            newContent entry.key = some (change entry).value)) :
    Sound newContent (entries.map change) := by
  have derived :
      DerivedFrom
        (fun earlier entry =>
          entry = change earlier ∧ (change earlier).valid = true)
        entries (entries.map change) := by
    intro slot entry held valid
    rw [List.getElem?_map, Option.map_eq_some_iff] at held
    obtain ⟨earlier, before, rfl⟩ := held
    exact ⟨earlier, before, (right earlier valid).1, rfl, valid⟩
  refine sound.of_derivedFrom derived ?_ ?_
  · rintro earlier entry ⟨rfl, valid⟩ earlierRight
    rw [sameKey]
    exact (right earlier valid).2 earlierRight
  · rintro earlier entry earlierOther other ⟨rfl, _⟩ ⟨rfl, _⟩ _ _ same
    rwa [sameKey, sameKey] at same

end Operations

end LookupCache

end DistributedDocs
